import CommonMeasure.Declarations.Forms
import CommonMeasure.Foundation.Dictionaries
import CommonMeasure.Foundation.Ordered

/-!
# Usage preferences

What a `Content-Usage` value says.
-/

namespace CommonMeasure.Declarations

open StructuredFields

inductive Category where
  | TrainAi
  | AiInput
  | AiIndex
  | Search
deriving DecidableEq

inductive Preference where
  | Allow
  | Disallow
deriving DecidableEq

def Category.from_aipref_label (label : Text) : Option Category :=
  if label = "train-ai".toList then some .TrainAi
  else if label = "search".toList then some .Search
  else if label = "ai-use".toList then some .AiInput
  else none

/-! ### The parser -/

/-- A lowercase letter or `*`, then lowercase letters, digits, `_`, `-`, `.` and `*`. -/
def take_key : Text → Option (Text × Text)
  | [] => none
  | first :: rest =>
    if first.isLower || first == '*' then
      let ok (c : Char) : Bool := c.isLower || c.isDigit || "_-.*".toList.contains c
      some (first :: rest.takeWhile ok, rest.dropWhile ok)
    else none

def is_tchar (c : Char) : Bool := c.isAlphanum || "!#$%&'*+-.^_`|~".toList.contains c

def string_end (escaped : Bool) : Text → Option Text
  | [] => none
  | c :: rest =>
    if escaped then string_end false rest
    else if c = '\\' then string_end true rest
    else if c = '"' then some rest
    else string_end false rest

def take_value : Text → Option (Option Text × Text)
  | [] => none
  | first :: rest =>
    if first.isAlpha || first == '*' then
      let token (c : Char) : Bool := is_tchar c || c == ':' || c == '/'
      some (some ((first :: rest).takeWhile token), (first :: rest).dropWhile token)
    else if first = '"' then (string_end false rest).map (none, ·)
    else if first = '?' then
      match rest with
      | bit :: rest => if bit = '0' ∨ bit = '1' then some (none, rest) else none
      | [] => none
    else if first = ':' then
      match rest.dropWhile (· ≠ ':') with
      | _ :: rest => some (none, rest)
      | [] => none
    else if first == '-' || first.isDigit then some (none, rest.dropWhile fun c => c.isDigit || c == '.')
    else none

def skip_parameters : Nat → Text → Option Text
  | turns + 1, ';' :: rest => do
    let (_, rest) ← take_key (rest.dropWhile (· = ' '))
    match rest with
    | '=' :: rest =>
      let (_, rest) ← take_value rest
      skip_parameters turns rest
    | rest => skip_parameters turns rest
  | _, rest => some rest

def blank (c : Char) : Bool := c == ' ' || c == '\t'

def take_member (text : Text) : Option ((Text × Option Text) × Text) := do
  let (key, rest) ← take_key text
  let (token, rest) ← match rest with
    | '=' :: rest => take_value rest
    | rest => some (none, rest)
  let rest ← skip_parameters rest.length rest
  return ((key, token), rest)

def members_from : Nat → Text → List (Text × Option Text) → Option (List (Text × Option Text))
  | 0, _, _ => none
  | turns + 1, rest, members => do
    let (member, rest) ← take_member rest
    let members := members ++ [member]
    match rest.dropWhile blank with
    | [] => return members
    | ',' :: rest =>
      -- A trailing comma is a parse failure.
      if rest.dropWhile blank = [] then none else members_from turns (rest.dropWhile blank) members
    | _ => none

def parse_dictionary (value : Text) : Option (List (Text × Option Text)) :=
  let rest := (value.dropWhile blank).rdropWhile blank
  if rest = [] then some [] else members_from rest.length rest []

def preference_of (token : Text) : Option Preference :=
  if token = ['y'] then some .Allow else if token = ['n'] then some .Disallow else none

def parse_content_usage (value : Text) : List (Category × Preference × Text) :=
  match parse_dictionary value with
  | none => []
  | some members =>
    (members.foldl (fun last member => put member.1 member.2 last) []).filterMap fun entry => do
      let category ← Category.from_aipref_label entry.1
      let token ← entry.2
      let preference ← preference_of token
      return (category, preference, entry.1 ++ '=' :: token)

def readKind : Kind → Bool
  | .date | .display_string => false
  | _ => true

def readValue : Value → Bool
  | .flag => true
  | .item kind => readKind kind
  | .inner_list => false

def readMember (member : Member) : Bool := readValue member.value && member.parameters.all readKind

def tokenOf : Value → Option Text
  | .item (.token name) => some name
  | _ => none

def entryOf (member : Member) : Text × Option Text := (member.key, tokenOf member.value)

def Ended (rest : Text) : Prop := ∀ c ∈ rest.head?, c = ';' ∨ c = ',' ∨ c = ' ' ∨ c = '\t'

def Passed (rest : Text) : Prop := ∀ c ∈ rest.head?, c = ',' ∨ c = ' ' ∨ c = '\t'

theorem Passed.ended {rest : Text} (passed : Passed rest) : Ended rest := fun c first => Or.inr (passed c first)

theorem Ended.stop {rest : Text} (ended : Ended rest) {p : Char → Bool}
    (none_ : p ';' = false ∧ p ',' = false ∧ p ' ' = false ∧ p '\t' = false) : ∀ c ∈ rest.head?, p c = false := by
  intro c first
  rcases ended c first with rfl | rfl | rfl | rfl
  · exact none_.1
  · exact none_.2.1
  · exact none_.2.2.1
  · exact none_.2.2.2

theorem run_split {p : Char → Bool} {run rest : Text} (all : ∀ c ∈ run, p c = true) (stop : ∀ c ∈ rest.head?, p c = false) :
    (run ++ rest).takeWhile p = run ∧ (run ++ rest).dropWhile p = rest := by
  rw [List.takeWhile_append_of_pos all, List.dropWhile_append_of_pos all]
  cases rest with
  | nil => simp
  | cons c rest =>
    have stops : p c = false := stop c rfl
    simp [stops]

theorem take_key_written {key rest : Text} (written : Key key) (stop : ∀ c ∈ rest.head?, keyChar c = false) :
    take_key (key ++ rest) = some (key, rest) := by
  cases written with
  | @of first _ starts all =>
    obtain ⟨taken, dropped⟩ := run_split all stop
    have lower : (first.isLower || first == '*') = true := starts
    rw [List.cons_append, take_key, if_pos lower]
    exact congrArg some (Prod.ext (congrArg (List.cons first) taken) dropped)

theorem string_end_written (chars rest : Text) : string_end false (chars.flatMap quoted ++ '"' :: rest) = some rest := by
  induction chars with
  | nil => simp [string_end]
  | cons c chars ih =>
    by_cases escaped : c = '"' ∨ c = '\\'
    · simpa [quoted, escaped, string_end] using ih
    · obtain ⟨quote, slash⟩ := not_or.mp escaped
      simpa [quoted, escaped, string_end, quote, slash] using ih

theorem take_number {first : Char} {digits rest : Text} (starts : first = '-' ∨ first.isDigit = true)
    (all : ∀ c ∈ digits, (c.isDigit || c == '.') = true) (ended : Ended rest) :
    take_value (first :: (digits ++ rest)) = some (none, rest) := by
  have dropped := (run_split all (ended.stop (by decide))).2
  have apart : (first.isAlpha || first == '*') = false ∧ first ≠ '"' ∧ first ≠ '?' ∧ first ≠ ':' ∧
      (first == '-' || first.isDigit) = true := by
    rcases starts with rfl | digit
    · decide
    · have other {c : Char} (letter : c.isDigit = false) : first ≠ c := by
        rintro rfl
        rw [letter] at digit
        cases digit
      have letter : first.isAlpha = false := by
        simp only [Char.isDigit, Char.isAlpha, Char.isUpper, Char.isLower] at digit ⊢
        grind
      refine ⟨?_, other (by decide), other (by decide), other (by decide), by simp [digit]⟩
      simpa [letter] using other (c := '*') (by decide)
  simp only [take_value, apart, dropped, Bool.false_eq_true, if_false, if_true]

theorem take_value_written {kind : Kind} {value rest : Text} (written : Bare kind value) (ended : Ended rest) :
    take_value (value ++ rest) = if readKind kind then some (tokenOf (.item kind), rest) else none := by
  have number {c : Char} (digit : c.isDigit = true) : (c.isDigit || c == '.') = true := by simp [digit]
  cases written with
  | @integer _ digits sign all =>
    cases sign with
    | minus => exact take_number (Or.inl rfl) (fun c member => number (all.2.2 c member)) ended
    | plain =>
      cases digits with
      | nil => exact absurd all.1 (by decide)
      | cons first digits =>
        exact take_number (Or.inr (all.2.2 first List.mem_cons_self))
          (fun c member => number (all.2.2 c (List.mem_cons_of_mem _ member))) ended
  | @decimal _ whole fraction sign all some_ =>
    have each : ∀ c ∈ whole ++ '.' :: fraction, (c.isDigit || c == '.') = true := by
      intro c member
      rcases List.mem_append.mp member with inside | inside
      · exact number (all.2.2 c inside)
      · rcases List.mem_cons.mp inside with rfl | later
        · decide
        · exact number (some_.2.2 c later)
    cases sign with
    | minus => exact take_number (Or.inl rfl) each ended
    | plain =>
      cases whole with
      | nil => exact absurd all.1 (by decide)
      | cons first whole =>
        exact take_number (Or.inr (all.2.2 first List.mem_cons_self))
          (fun c member => each c (List.mem_cons_of_mem _ member)) ended
  | @string chars _ =>
    have whole : '"' :: chars.flatMap quoted ++ ['"'] ++ rest = '"' :: (chars.flatMap quoted ++ '"' :: rest) := by simp
    rw [whole]
    simp [take_value, string_end_written, readKind, tokenOf]
  | @token first name starts all =>
    have each : ∀ c ∈ first :: name, tokenChar c = true := by
      refine List.forall_mem_cons.mpr ⟨?_, all⟩
      simp only [tokenStart, Bool.or_eq_true, beq_iff_eq] at starts
      rcases starts with letter | rfl
      · simp [tokenChar, Char.isAlphanum, letter]
      · decide
    obtain ⟨taken, dropped⟩ := run_split each (ended.stop (by decide))
    have letter : (first.isAlpha || first == '*') = true := starts
    have found : take_value (first :: name ++ rest) =
        some (some ((first :: name ++ rest).takeWhile tokenChar), (first :: name ++ rest).dropWhile tokenChar) := by
      simp only [List.cons_append, take_value, letter, if_true]
      rfl
    rw [found, taken, dropped]
    rfl
  | @byte_sequence encoded all =>
    have each : ∀ c ∈ encoded, decide (c ≠ ':') = true := by
      intro c member
      rw [decide_eq_true_iff]
      rintro rfl
      exact absurd (all _ member) (by decide)
    have dropped : (encoded ++ ':' :: rest).dropWhile (· ≠ ':') = ':' :: rest :=
      (run_split each (by simp)).2
    have whole : ':' :: encoded ++ [':'] ++ rest = ':' :: (encoded ++ ':' :: rest) := by simp
    rw [whole]
    simp only [take_value, dropped]
    rfl
  | @boolean bit either =>
    rcases either with rfl | rfl <;> rfl
  | date _ _ => rfl
  | display_string _ => rfl

theorem parameters_head {kinds : List Kind} {parameters : Text} (written : Parameters kinds parameters) :
    parameters = [] ∨ ∃ rest, parameters = ';' :: rest := by
  cases written with
  | nil => exact Or.inl rfl
  | flag _ _ _ => exact Or.inr ⟨_, rfl⟩
  | valued _ _ _ _ => exact Or.inr ⟨_, rfl⟩

theorem ended_parameters {kinds : List Kind} {parameters rest : Text} (written : Parameters kinds parameters)
    (passed : Passed rest) :
    Ended (parameters ++ rest) := by
  rcases parameters_head written with rfl | ⟨more, rfl⟩
  · exact passed.ended
  · rintro c first
    exact Or.inl (Option.some.inj first).symm

theorem key_first {key : Text} (written : Key key) : ∃ first rest, key = first :: rest ∧ first ≠ ' ' ∧ first ≠ '\t' := by
  cases written with
  | @of first rest starts _ =>
    refine ⟨first, rest, rfl, ?_, ?_⟩
    · rintro rfl
      exact absurd starts (by decide)
    · rintro rfl
      exact absurd starts (by decide)

theorem spaces_key {spaces key rest : Text} (blank : Spaces spaces) (written : Key key) :
    (spaces ++ (key ++ rest)).dropWhile (· = ' ') = key ++ rest := by
  obtain ⟨first, more, rfl, apart, _⟩ := key_first written
  exact (run_split (fun c member => by simp [blank c member]) (by simpa using apart)).2

theorem skip_parameters_written {kinds : List Kind} {parameters rest : Text} (written : Parameters kinds parameters)
    (passed : Passed rest) {turns : Nat} (enough : parameters.length ≤ turns) :
    skip_parameters turns (parameters ++ rest) = if kinds.all readKind then some rest else none := by
  induction written generalizing turns with
  | nil =>
    have stops (more : Text) : rest ≠ ';' :: more := by
      rintro rfl
      have first := passed ';' rfl
      revert first
      decide
    cases turns with
    | zero => simp [skip_parameters]
    | succ turns =>
      cases rest with
      | nil => simp [skip_parameters]
      | cons c rest =>
        have other : c ≠ ';' := fun is => stops rest (is ▸ rfl)
        simp [skip_parameters, other]
  | @flag spaces key parameters kinds blank named written ih =>
    have ended := ended_parameters written passed
    have named_ := take_key_written named (ended.stop (p := keyChar) (by decide))
    cases turns with
    | zero => simp at enough
    | succ turns =>
      have later := @ih turns (by simp at enough; omega)
      rw [List.cons_append, List.append_assoc, List.append_assoc]
      simp only [skip_parameters, spaces_key blank named, named_, Option.bind_eq_bind, Option.bind_some]
      split
      · rename_i more is
        exact absurd (ended '=' (by rw [is]; rfl)) (by decide)
      · exact later
  | @valued spaces key value parameters kind kinds blank named item written ih =>
    have ended := ended_parameters written passed
    have named_ := @take_key_written _ ('=' :: (value ++ (parameters ++ rest))) named (by simp; decide)
    cases turns with
    | zero => simp at enough
    | succ turns =>
      have later := @ih turns (by simp at enough; omega)
      rw [List.cons_append, List.append_assoc, List.append_assoc, List.cons_append, List.append_assoc]
      simp only [skip_parameters, spaces_key blank named, named_, Option.bind_eq_bind, Option.bind_some,
        take_value_written item ended, List.all_cons]
      by_cases readable : readKind kind = true
      · simpa [readable] using later
      · simp [readable]

theorem take_member_written {member : Member} {text rest : Text} (written : Written member text) (passed : Passed rest) :
    take_member (text ++ rest) = if readMember member then some (entryOf member, rest) else none := by
  cases written with
  | @flag key parameters kinds named written =>
    have ended := ended_parameters written passed
    have named_ := take_key_written named (ended.stop (p := keyChar) (by decide))
    have skipped : skip_parameters (parameters ++ rest).length (parameters ++
      rest) = if kinds.all readKind then some rest else none :=
      skip_parameters_written written passed (by simp)
    rw [List.append_assoc]
    simp only [take_member, named_, Option.bind_eq_bind, Option.bind_some]
    split
    · rename_i more is
      exact absurd (ended '=' (by rw [is]; rfl)) (by decide)
    · simp only [skipped, readMember, readValue, Bool.true_and]
      by_cases readable : kinds.all readKind = true
      · simp [readable, entryOf, tokenOf]
      · simp [readable]
  | @item key value parameters kind kinds named item written =>
    have ended := ended_parameters written passed
    have named_ := @take_key_written _ ('=' :: (value ++ (parameters ++ rest))) named (by simp; decide)
    have skipped : skip_parameters (parameters ++ rest).length (parameters ++
      rest) = if kinds.all readKind then some rest else none :=
      skip_parameters_written written passed (by simp)
    rw [List.append_assoc, List.cons_append, List.append_assoc]
    simp only [take_member, named_, Option.bind_eq_bind, Option.bind_some, take_value_written item ended, readMember, readValue]
    by_cases readable : readKind kind = true
    · rw [if_pos readable, Option.bind_some]
      simp only [skipped, readable, Bool.true_and]
      by_cases others : kinds.all readKind = true
      · simp [others, entryOf]
      · simp [others]
    · simp [readable]
  | @inner_list key content parameters kinds named _ written =>
    have named_ := @take_key_written _ ('=' :: '(' :: (content ++ parameters ++ rest)) named (by simp; decide)
    have none_ : take_value ('(' :: (content ++ parameters ++ rest)) = none := rfl
    rw [List.append_assoc, List.cons_append, List.cons_append]
    simp only [take_member, named_, Option.bind_eq_bind, Option.bind_some, none_]
    rfl

theorem written_first {member : Member} {text : Text} (written : Written member text) :
    ∃ first rest, text = first :: rest ∧ blank first = false := by
  have begins {key : Text} (named : Key key) (after : Text) : ∃ first rest, key ++ after = first :: rest ∧
    blank first = false := by
    obtain ⟨first, rest, rfl, space, tab⟩ := key_first named
    exact ⟨first, rest ++ after, rfl, by simp [blank, space, tab]⟩
  cases written with
  | flag named _ => exact begins named _
  | item named _ _ => exact begins named _
  | inner_list named _ _ => exact begins named _

theorem members_first {members : List Member} {text : Text} (written : Members members text) :
    ∃ first rest, text = first :: rest ∧ blank first = false := by
  cases written with
  | last one => exact written_first one
  | cons one _ _ _ =>
    obtain ⟨first, rest, rfl, apart⟩ := written_first one
    exact ⟨first, _, rfl, apart⟩

theorem blanks_split {blanks rest : Text} (white : Blanks blanks) (stop : ∀ c ∈ rest.head?, blank c = false) :
    (blanks ++ rest).dropWhile blank = rest := by
  refine (run_split (fun c member => ?_) stop).2
  rcases white c member with rfl | rfl <;> rfl

theorem members_from_written {members : List Member} {text : Text} (written : Members members text) {turns : Nat}
    (enough : text.length ≤ turns) (before : List (Text × Option Text)) :
    members_from turns text before = if members.all readMember then some (before ++ members.map entryOf) else none := by
  induction written generalizing turns before with
  | @last member text one =>
    obtain ⟨first, rest, rfl, _⟩ := written_first one
    cases turns with
    | zero => simp at enough
    | succ turns =>
      have taken := @take_member_written _ _ [] one (by nofun)
      rw [List.append_nil] at taken
      simp only [members_from, taken, Option.bind_eq_bind]
      by_cases readable : readMember member = true
      · simp [readable]
      · simp [readable]
  | @cons member members text white after rest one blanks blanks_ written ih =>
    obtain ⟨first, more, rfl, _⟩ := written_first one
    obtain ⟨next, others, rfl, apart⟩ := members_first written
    cases turns with
    | zero => simp at enough
    | succ turns =>
      have passed : Passed (white ++ ',' :: (after ++ next :: others)) := by
        intro c found
        cases white with
        | nil => exact Or.inl (Option.some.inj found).symm
        | cons d white =>
          obtain rfl := Option.some.inj found
          exact Or.inr (blanks d List.mem_cons_self)
      have taken := take_member_written one passed
      have comma : (white ++ ',' :: (after ++ next :: others)).dropWhile blank = ',' :: (after ++ next :: others) :=
        blanks_split blanks (by simp; decide)
      have dropped : (after ++ next :: others).dropWhile blank = next :: others := blanks_split blanks_ (by simpa using apart)
      have later := @ih turns (by simp at enough ⊢; omega) (before ++ [entryOf member])
      simp only [members_from, taken, Option.bind_eq_bind]
      by_cases readable : readMember member = true
      · simp only [readable, if_true, Option.bind_some, comma, dropped, later, List.cons_ne_nil, if_false, List.all_cons,
          Bool.true_and, List.map_cons, List.append_assoc, List.singleton_append]
      · simp [readable]

theorem parse_dictionary_written {members : List Member} {text : Text} (written : Dictionary members text) :
    parse_dictionary text = if members.all readMember then some (members.map entryOf) else none := by
  cases written with
  | empty spaces =>
    have dropped : text.dropWhile blank = [] := by
      simpa using @blanks_split _ [] (fun c member => Or.inl (spaces c member)) (by nofun)
    simp [parse_dictionary, dropped]
  | @members spaces inner blanks _ white written after =>
    obtain ⟨first, rest, is, apart⟩ := members_first written
    obtain ⟨front, last, ends, space, tab⟩ := written.solid
    have started : (spaces ++ (inner ++ blanks)).dropWhile blank = inner ++ blanks := by
      refine blanks_split (fun c member => Or.inl (white c member)) ?_
      simpa [is] using apart
    have ended : (inner ++ blanks).rdropWhile blank = inner := by
      have stop : ∀ c ∈ inner.reverse.head?, blank c = false := by
        rw [ends]
        simp [blank, space, tab]
      rw [List.rdropWhile, List.reverse_append, blanks_split (fun c member => after c (List.mem_reverse.mp member)) stop,
        List.reverse_reverse]
    have some_ : inner ≠ [] := by simp [is]
    simp only [parse_dictionary, started, ended, some_, if_false]
    simpa using members_from_written written (Nat.le_refl _) []

/-! ### The preferences of a dictionary -/

def Stated (members : List Member) (category : Category) (preference : Preference) (label : Text) : Prop :=
  ∃ key token, Category.from_aipref_label key = some category ∧
    (∃ before parameters after, members = before ++ ⟨key, .item (.token token), parameters⟩ :: after ∧
      ∀ later ∈ after, later.key ≠ key) ∧
    preference_of token = some preference ∧ label = key ++ '=' :: token

theorem tokenOf_some {value : Value} {token : Text} : tokenOf value = some token ↔ value = .item (.token token) := by
  constructor
  · intro read
    unfold tokenOf at read
    split at read
    · rw [Option.some.inj read]
    · cases read
  · rintro rfl
    rfl

theorem mem_stated (members : List Member) (category : Category) (preference : Preference) (label : Text) :
    (category, preference, label) ∈ ((members.map entryOf).foldl (fun last member => put member.1 member.2 last) []).filterMap
        (fun entry => do
          let category ← Category.from_aipref_label entry.1
          let token ← entry.2
          let preference ← preference_of token
          return (category, preference, entry.1 ++ '=' :: token)) ↔ Stated members category preference label := by
  have latest (key token : Text) : (key, some token) ∈
      (members.map entryOf).foldl (fun last member => put member.1 member.2 last) [] ↔
        ∃ before parameters after, members = before ++ ⟨key, .item (.token token), parameters⟩ :: after ∧
          ∀ later ∈ after, later.key ≠ key := by
    rw [mem_put_all]
    constructor
    · rintro ⟨_, _, cut, apart⟩
      obtain ⟨before, rest, rfl, rfl, ends⟩ := List.map_eq_append_iff.mp cut
      obtain ⟨⟨_, value, parameters⟩, after, rfl, is, rfl⟩ := List.map_eq_cons_iff.mp ends
      obtain ⟨rfl, read⟩ := Prod.mk.inj is
      obtain rfl := tokenOf_some.mp read
      exact ⟨before, parameters, after, rfl, fun later listed => apart _ (List.mem_map_of_mem listed)⟩
    · rintro ⟨before, parameters, after, rfl, apart⟩
      refine ⟨before.map entryOf, after.map entryOf, by simp [entryOf, tokenOf], fun later listed => ?_⟩
      obtain ⟨member, inside, rfl⟩ := List.mem_map.mp listed
      exact apart member inside
  rw [List.mem_filterMap]
  constructor
  · rintro ⟨⟨key, value⟩, listed, read⟩
    simp only [Option.bind_eq_bind, Option.bind_eq_some_iff, Option.pure_def, Option.some.injEq, Prod.mk.injEq] at read
    obtain ⟨_, known, token, rfl, _, prefers, rfl, rfl, rfl⟩ := read
    exact ⟨key, token, known, (latest key token).mp listed, prefers, rfl⟩
  · rintro ⟨key, token, known, last, prefers, rfl⟩
    refine ⟨(key, some token), (latest key token).mpr last, ?_⟩
    simp [known, prefers]

def label_of : Category → Text
  | .TrainAi => "train-ai".toList
  | .Search => "search".toList
  | .AiInput => "ai-use".toList
  | .AiIndex => []

theorem label_known {key : Text} {category : Category} (known : Category.from_aipref_label key = some category) :
    key = label_of category := by
  unfold Category.from_aipref_label at known
  split at known
  · rename_i is
    rw [is, ← Option.some.inj known]
    rfl
  · split at known
    · rename_i is
      rw [is, ← Option.some.inj known]
      rfl
    · split at known
      · rename_i is
        rw [is, ← Option.some.inj known]
        rfl
      · cases known

theorem stated_once (value : Text) : ((parse_content_usage value).map Prod.fst).Nodup := by
  unfold parse_content_usage
  cases parse_dictionary value with
  | none => simp
  | some members =>
    rw [List.Nodup, List.pairwise_map]
    refine (ordered_put_all members).filterMap _ fun one other less first read second read_ same => ?_
    have key {entry : Text × Option Text} {answer : Category × Preference × Text} (read : (do
        let category ← Category.from_aipref_label entry.1
        let token ← entry.2
        let preference ← preference_of token
        return (category, preference, entry.1 ++ '=' :: token)) = some answer) : entry.1 = label_of answer.1 := by
      simp only [Option.bind_eq_bind, Option.bind_eq_some_iff, Option.pure_def, Option.some.injEq] at read
      obtain ⟨category, known, _, _, _, _, rfl⟩ := read
      exact label_known known
    rw [key read, key read_, same] at less
    exact lt_irrefl _ less

theorem readMember_iff {member : Member} : readMember member = true ↔ member.value ≠ .inner_list ∧
    ∀ kind, (member.value = .item kind ∨ kind ∈ member.parameters) → kind ≠ .date ∧ kind ≠ .display_string := by
  have read {kind : Kind} : readKind kind = true ↔ kind ≠ .date ∧ kind ≠ .display_string := by cases kind <;> simp [readKind]
  have value : readValue member.value = true ↔ member.value ≠ .inner_list ∧
      ∀ kind, member.value = .item kind → kind ≠ .date ∧ kind ≠ .display_string := by
    cases member.value with
    | item kind => simp [readValue, read]
    | _ => simp [readValue]
  rw [readMember, Bool.and_eq_true, value, List.all_eq_true]
  simp only [read]
  constructor
  · rintro ⟨⟨outer, item⟩, parameters⟩
    exact ⟨outer, fun kind either => either.elim (item kind) (parameters kind)⟩
  · rintro ⟨outer, all⟩
    exact ⟨⟨outer, fun kind is => all kind (Or.inl is)⟩, fun kind listed => all kind (Or.inr listed)⟩

/-- A dictionary is read, and its preferences are those of its known labels, exactly when each value in it is of a kind the
parser reads. -/
theorem parse_content_usage_reads {members : List Member} {text : Text} (written : Dictionary members text) :
    ((∃ read, parse_dictionary text = some read) ∧ ((parse_content_usage text).map Prod.fst).Nodup ∧
      ∀ category preference label, (category, preference, label) ∈ parse_content_usage text ↔
        Stated members category preference label) ↔
    ∀ member ∈ members, member.value ≠ .inner_list ∧ ∀ kind, (member.value = .item kind ∨ kind ∈ member.parameters) →
      kind ≠ .date ∧ kind ≠ .display_string := by
  have parsed := parse_dictionary_written written
  have readable : members.all readMember = true ↔ ∀ member ∈ members, member.value ≠ .inner_list ∧
      ∀ kind, (member.value = .item kind ∨ kind ∈ member.parameters) → kind ≠ .date ∧ kind ≠ .display_string := by
    rw [List.all_eq_true]
    exact forall₂_congr fun member _ => readMember_iff
  rw [← readable]
  by_cases all : members.all readMember = true
  · rw [if_pos all] at parsed
    refine iff_of_true ⟨⟨_, parsed⟩, stated_once text, fun category preference label => ?_⟩ all
    rw [parse_content_usage, parsed]
    exact mem_stated members category preference label
  · rw [if_neg all] at parsed
    refine iff_of_false ?_ all
    rintro ⟨⟨read, is⟩, _⟩
    rw [parsed] at is
    cases is

theorem parse_content_usage_reads_mixed :
    ∃ members, Dictionary members "train-ai=n;v=\"a,b\", ttl=1.5 ".toList ∧
      ∀ category preference label, (category, preference, label) ∈ parse_content_usage "train-ai=n;v=\"a,b\", ttl=1.5 ".toList ↔
        Stated members category preference label := by
  have one : Written ⟨"train-ai".toList, .item (.token ['n']), [.string]⟩ "train-ai=n;v=\"a,b\"".toList :=
    .item (.of (by decide) (List.all_eq_true.mp (by decide))) (.token (by decide) (List.all_eq_true.mp (by decide)))
      (@Parameters.valued [] ['v'] _ _ _ _ nofun (.of (by decide) (List.all_eq_true.mp (by decide))) (@Bare.string ['a',
        ',', 'b'] (List.all_eq_true.mp (by decide))) .nil)
  have other : Written ⟨"ttl".toList, .item .decimal, []⟩ "ttl=1.5".toList :=
    .item (.of (by decide) (List.all_eq_true.mp (by decide))) (@Bare.decimal [] ['1'] ['5'] .plain ⟨by decide, by decide,
      List.all_eq_true.mp (by decide)⟩ ⟨by decide, by decide, List.all_eq_true.mp (by decide)⟩) .nil
  have written : Dictionary [⟨"train-ai".toList, .item (.token ['n']), [.string]⟩, ⟨"ttl".toList, .item .decimal, []⟩]
      "train-ai=n;v=\"a,b\", ttl=1.5 ".toList :=
    @Dictionary.members [] _ [' '] _ nofun (@Members.cons _ _ _ [] [' '] _ one nofun (by simp [Blanks]) (.last other))
      (by simp [Blanks])
  refine ⟨_, written, ((parse_content_usage_reads written).mpr ?_).2.2⟩
  intro member listed
  simp only [List.mem_cons, List.not_mem_nil, or_false] at listed
  rcases listed with rfl | rfl
  · simp only [ne_eq, reduceCtorEq, not_false_eq_true, true_and, Value.item.injEq, List.mem_singleton]
    rintro kind (rfl | rfl) <;> simp
  · simp

/-- An inner list beside a preference hides it. -/
theorem inner_list_hides :
    ∃ members, Dictionary members "pages=(a b), train-ai=n".toList ∧ Stated members .TrainAi .Disallow "train-ai=n".toList ∧
      parse_dictionary "pages=(a b), train-ai=n".toList = none ∧ parse_content_usage "pages=(a b), train-ai=n".toList = [] := by
  have one : Written ⟨"pages".toList, .inner_list, []⟩ "pages=(a b)".toList :=
    .inner_list (.of (by decide) (List.all_eq_true.mp (by decide)))
      (@InnerList.item [] ['a'] [] _ _ _ nofun (.token (by decide) (List.all_eq_true.mp (by decide))) .nil
        (@InnerList.item [' '] ['b'] [] _ _ _ (by simp [Spaces]) (.token (by decide) (List.all_eq_true.mp (by decide))) .nil
          (@InnerList.close [] nofun) (by decide)) (by decide)) .nil
  have other : Written ⟨"train-ai".toList, .item (.token ['n']), []⟩ "train-ai=n".toList :=
    .item (.of (by decide) (List.all_eq_true.mp (by decide))) (.token (by decide) (List.all_eq_true.mp (by decide))) .nil
  refine ⟨_, @Dictionary.members [] _ [] _ nofun (@Members.cons _ _ _ [] [' '] _ one nofun (by simp [Blanks]) (.last other))
    nofun, ⟨"train-ai".toList, ['n'], by decide, ⟨[_], [], [], rfl, nofun⟩, by decide, by decide⟩, by decide,
      by decide⟩

end CommonMeasure.Declarations
