import CommonMeasure.Supply.Credentials

/-!
# Edits of the credentials file

An edit keeps the lines that do not assign the variable, and leaves the line of its value the only one that does.
-/

namespace CommonMeasure.Supply.Credentials

variable {path : String} {name value raw line ending : List Char}

/-! ### White space -/

theorem trim_unterminated (line : List Char) : trim (unterminated line) = trim line := by
  have shorn {c : Char} (text : List Char) (white : isWhitespace c = true) (last : text.getLast? = some c) :
      trim text.dropLast = trim text := by
    have whole := List.dropLast_append_getLast? c last
    have blank : Blank [c] := by simpa [Blank] using white
    have bare := trim_white_right text.dropLast blank
    rw [whole] at bare
    exact bare.symm
  unfold unterminated
  dsimp only
  split
  · rename_i fed
    split
    · rename_i returned
      rw [shorn _ (by decide) returned, shorn _ (by decide) fed]
    · exact shorn _ (by decide) fed
  · rfl

theorem read_line_congr {a b : List Char} (same : trim a = trim b) : read_line a = read_line b := by
  unfold read_line
  rw [same]

theorem assigns_congr {a b : List Char} (same : trim a = trim b) : assigns a name = assigns b name := by
  unfold assigns
  rw [same]

theorem isEnding_white {c : Char} (ends : isEnding c = true) : isWhitespace c = true := by
  simp only [isEnding, Bool.or_eq_true, decide_eq_true_eq] at ends
  rcases ends with rfl | rfl <;> decide

theorem isNameChar_plain {c : Char} (plain : isNameChar c = true) :
    isWhitespace c = false ∧ c ≠ '\n' ∧ c ≠ '=' ∧ c ≠ '#' := by
  simp only [isNameChar, Char.isAlphanum, Char.isAlpha, Char.isUpper, Char.isLower, Char.isDigit, Bool.or_eq_true,
    Bool.and_eq_true, decide_eq_true_eq, ge_iff_le] at plain
  refine ⟨?_, ?_, ?_, ?_⟩
  · rcases plain with ((plain | plain) | plain) | plain
    · have low := UInt32.le_iff_toNat_le.mp plain.1
      have high := UInt32.le_iff_toNat_le.mp plain.2
      simp only [isWhitespace, Char.toNat] at *
      simp at low high ⊢
      omega
    · have low := UInt32.le_iff_toNat_le.mp plain.1
      have high := UInt32.le_iff_toNat_le.mp plain.2
      simp only [isWhitespace, Char.toNat] at *
      simp at low high ⊢
      omega
    · have low := UInt32.le_iff_toNat_le.mp plain.1
      have high := UInt32.le_iff_toNat_le.mp plain.2
      simp only [isWhitespace, Char.toNat] at *
      simp at low high ⊢
      omega
    · subst plain
      decide
  all_goals
    rintro rfl
    revert plain
    decide

def Named (name : List Char) : Prop := name ≠ [] ∧ ∀ c ∈ name, isNameChar c = true

structure Taken (value : List Char) : Prop where
  some_ : value ≠ []
  trimmed : trim value = value
  printed : ∀ c ∈ value, isControl c = false

theorem trim_solid {text : List Char} (some_ : text ≠ []) (first : isWhitespace (text.head some_) = false)
    (last : isWhitespace (text.getLast some_) = false) : trim text = text := by
  cases text with
  | nil => exact (some_ rfl).elim
  | cons c rest =>
    have starts : trimStart (c :: rest) = c :: rest := by
      rw [trimStart, List.dropWhile_cons_of_neg (by simpa using first)]
    rw [trim, starts]
    exact List.rdropWhile_eq_self_iff.mpr fun _ => by simpa using last

theorem trim_ends {text : List Char} (trimmed : trim text = text) (some_ : text ≠ []) :
    isWhitespace (text.getLast some_) = false := by
  have kept : (trimStart text).rdropWhile isWhitespace = text := trimmed
  have twice : text.rdropWhile isWhitespace = text := by
    conv_lhs => rw [← kept]
    rw [List.rdropWhile_idempotent, kept]
  simpa using List.rdropWhile_eq_self_iff.mp twice some_

theorem assignment_head (named : Named name) :
    ∃ c rest, assignment name value = c :: rest ∧ isNameChar c = true := by
  obtain ⟨some_, plain⟩ := named
  cases name with
  | nil => exact (some_ rfl).elim
  | cons c rest => exact ⟨c, rest ++ '=' :: value, rfl, plain c List.mem_cons_self⟩

theorem trim_assignment (named : Named name) (taken : Taken value) (ends : ∀ c ∈ ending, isEnding c = true) :
    trim (assignment name value ++ ending) = assignment name value := by
  rw [trim_white_right _ fun c member => isEnding_white (ends c member)]
  obtain ⟨c, rest, same, plain⟩ := @assignment_head name value named
  have some_ : assignment name value ≠ [] := by simp [same]
  apply trim_solid some_
  · simpa [same] using (isNameChar_plain plain).1
  · have last : (assignment name value).getLast some_ = value.getLast taken.some_ := by
      simp [assignment, List.getLast_append_of_ne_nil, taken.some_]
    rw [last]
    exact trim_ends taken.trimmed taken.some_

/-- No name is `export` and a space: the equals sign follows it. -/
theorem exported_assignment (named : Named name) : exported (assignment name value) = assignment name value := by
  have apart : "export ".toList.isPrefixOf (assignment name value) = false := by
    rw [Bool.eq_false_iff]
    intro starts
    obtain ⟨rest, same⟩ := List.isPrefixOf_iff_prefix.mp starts
    have stop : isNameChar '=' = false := by decide
    have left : (assignment name value).takeWhile isNameChar = name := by
      rw [assignment, List.takeWhile_append_of_pos named.2, List.takeWhile_cons_of_neg (by simp [stop]), List.append_nil]
    have right : ("export ".toList ++ rest).takeWhile isNameChar = "export".toList := rfl
    rw [same, left] at right
    rw [right, assignment] at same
    simp at same
  obtain ⟨c, rest, same, plain⟩ := @assignment_head name value named
  rw [exported, apart, if_neg (by simp), trimStart, same, List.dropWhile_cons_of_neg (by simp [(isNameChar_plain plain).1])]

theorem assignment_reads (named : Named name) :
    ¬(assignment name value = [] ∨ (assignment name value).head? = some '#') ∧
      split_once (exported (assignment name value)) = some (name, value) := by
  obtain ⟨c, rest, same, plain⟩ := @assignment_head name value named
  refine ⟨by simp [same, (isNameChar_plain plain).2.2.2], ?_⟩
  rw [exported_assignment named]
  exact split_once_some fun member => (isNameChar_plain (named.2 _ member)).2.2.1 rfl

theorem trim_name (named : Named name) : trim name = name :=
  trim_solid named.1 (isNameChar_plain (named.2 _ (List.head_mem _))).1 (isNameChar_plain (named.2 _ (List.getLast_mem _))).1

theorem assigns_assignment (named : Named name) (taken : Taken value) (ends : ∀ c ∈ ending, isEnding c = true) :
    assigns (assignment name value ++ ending) name = true := by
  obtain ⟨some_, split⟩ := @assignment_reads name value named
  rw [assigns, trim_assignment named taken ends, if_neg some_, split]
  simp [trim_name named]

theorem unquote_mem {c : Char} (member : c ∈ unquote value) : c ∈ value := by
  unfold unquote at member
  split at member
  · split at member
    · exact List.mem_cons_of_mem _ (List.mem_of_mem_dropLast member)
    · exact member
  · exact member

theorem read_assignment (named : Named name) (taken : Taken value) (ends : ∀ c ∈ ending, isEnding c = true) :
    read_line (assignment name value ++ ending) =
      if "gopass:".toList.isPrefixOf (unquote value) then .unrendered name else .assigned name (unquote value) := by
  obtain ⟨some_, split⟩ := @assignment_reads name value named
  have plain : ¬(name = [] ∨ ¬name.all isNameChar = true) := by
    simp only [named.1, false_or, not_not]
    exact List.all_eq_true.mpr named.2
  have printed : Char.ofNat 0 ∉ unquote value := by
    intro member
    have printed := taken.printed _ (unquote_mem member)
    revert printed
    decide
  rw [read_line, trim_assignment named taken ends, if_neg some_, split]
  simp only [trim_name named, taken.trimmed, if_neg plain, if_neg printed]

variable {segments pieces : List (List Char)} {taken_ : Option (List Char)} {written : Bool}

def others (name : List Char) (segments : List (List Char)) : List (List Char) :=
  segments.filter fun line => !assigns line name

def assigning (name : List Char) (segments : List (List Char)) : List (List Char) :=
  segments.filter fun line => assigns line name

def closed : List (List Char) → List (List Char)
  | [] => []
  | [last] => [if last.getLast? = some '\n' then last else last ++ ['\n']]
  | line :: next :: more => line :: closed (next :: more)

def Places (name : List Char) : Option (List Char) → List (List Char) → Prop
  | none, placed => placed = []
  | some value, placed =>
    ∃ ending, ending ≠ [] ∧ (∀ c ∈ ending, isEnding c = true) ∧ placed = [assignment name value ++ ending]

theorem edit_lines_drops (rest : taken_ = none ∨ written = true) :
    edit_lines name taken_ written segments = (others name segments, written) := by
  induction segments with
  | nil => rfl
  | cons line segments ih =>
    unfold edit_lines
    by_cases here : assigns line name = true
    · rcases rest with rfl | rfl
      · simp [ih, here, others]
      · cases taken_ <;> simp [ih, here, others]
    · simp [ih, here, others]

theorem ending_of (line : List Char) : ∀ c ∈ line.rtakeWhile isEnding, isEnding c = true :=
  fun _ member => List.mem_rtakeWhile_imp member

theorem edit_lines_places (named : Named name) (taken : Taken value) :
    others name (edit_lines name (some value) false segments).1 = others name segments ∧
      if (edit_lines name (some value) false segments).2
      then Places name (some value) (assigning name (edit_lines name (some value) false segments).1)
      else (edit_lines name (some value) false segments).1 = segments ∧ assigning name segments = [] := by
  induction segments with
  | nil => simp [edit_lines, assigning]
  | cons line segments ih =>
    rw [edit_lines]
    by_cases here : assigns line name = true
    · rw [if_pos here, edit_lines_drops (Or.inr rfl)]
      have none_ : assigning name (others name segments) = [] := by
        simp [assigning, others, List.filter_filter]
      dsimp only
      generalize same : (if line.rtakeWhile isEnding = [] then ['\n'] else line.rtakeWhile isEnding) = ending
      have some_ : ending ≠ [] := by
        subst same
        split <;> simp_all
      have ends : ∀ c ∈ ending, isEnding c = true := by
        subst same
        split
        · simp [isEnding]
        · exact ending_of line
      have placed := assigns_assignment named taken ends
      refine ⟨?_, ?_⟩
      · simp [others, here, placed]
      · refine ⟨ending, some_, ends, ?_⟩
        simpa [assigning, placed] using none_
    · rw [if_neg here]
      dsimp only
      obtain ⟨kept, places⟩ := ih
      refine ⟨by simpa [others, here] using kept, ?_⟩
      split
      · rename_i written
        rw [if_pos written] at places
        simpa [assigning, here] using places
      · rename_i unwritten
        rw [if_neg unwritten] at places
        simpa [assigning, here] using places

theorem cut_filter (keep : List Char → Bool) (cut : Cut '\n' segments) : Cut '\n' (segments.filter keep) := by
  induction cut with
  | nil => exact .nil
  | last body some_ plain =>
    rw [List.filter_cons]
    split
    · exact .last body some_ plain
    · exact .nil
  | cons body plain rest ih =>
    rw [List.filter_cons]
    split
    · exact .cons body plain ih
    · exact ih

theorem taken_plain (taken : Taken value) : '\n' ∉ value := by
  intro member
  have printed := taken.printed _ member
  revert printed
  decide

theorem assignment_plain (named : Named name) (taken : Taken value) : '\n' ∉ assignment name value := by
  intro member
  rcases List.mem_append.mp member with first | second
  · exact (isNameChar_plain (named.2 _ first)).2.1 rfl
  · rcases List.mem_cons.mp second with equals | inside
    · revert equals
      decide
    · exact taken_plain taken inside

theorem edit_lines_cut (named : Named name) (taken : Taken value) (cut : Cut '\n' segments) :
    Cut '\n' (edit_lines name (some value) false segments).1 := by
  have plain := assignment_plain named taken
  induction cut with
  | nil => exact .nil
  | last body some_ unended =>
    rw [edit_lines]
    split
    · dsimp only
      rw [edit_lines_drops (Or.inr rfl)]
      have short : '\n' ∉ body.rtakeWhile isEnding :=
        fun member => unended ((List.rtakeWhile_suffix isEnding body).subset member)
      split
      · exact .cons _ plain .nil
      · refine .last _ ?_ (by simp [plain, short])
        simp [assignment]
    · exact .last body some_ unended
  | @cons body more unended rest ih =>
    rw [edit_lines]
    split
    · dsimp only
      rw [edit_lines_drops (Or.inr rfl)]
      have short : '\n' ∉ body.rtakeWhile isEnding :=
        fun member => unended ((List.rtakeWhile_suffix isEnding body).subset member)
      have ending : (body ++ ['\n']).rtakeWhile isEnding = body.rtakeWhile isEnding ++ ['\n'] := by
        rw [List.rtakeWhile_concat_pos _ _ _ (by decide)]
      rw [ending, if_neg (by simp), ← List.append_assoc]
      exact .cons _ (by simp [plain, short]) (cut_filter _ rest)
    · exact .cons body unended ih

theorem closed_cut (cut : Cut '\n' segments) (plain : '\n' ∉ line) : Cut '\n' (closed segments ++ [line ++ ['\n']]) := by
  induction cut with
  | nil => exact .cons line plain .nil
  | last body some_ unended =>
    have last : body.getLast? ≠ some '\n' := fun last => unended (List.mem_of_getLast? last)
    simp only [closed, if_neg last, List.singleton_append]
    exact .cons body unended (.cons line plain .nil)
  | @cons body more unended rest ih =>
    cases more with
    | nil =>
      simp only [closed, List.getLast?_append, List.getLast?_singleton, Option.some_or, if_true, List.singleton_append]
      exact .cons body unended (.cons line plain .nil)
    | cons next more => exact .cons body unended ih

theorem closed_flatten (cut : Cut '\n' segments) :
    (closed segments).flatten =
      segments.flatten ++ if segments.flatten ≠ [] ∧ segments.flatten.getLast? ≠ some '\n' then ['\n'] else [] := by
  induction cut with
  | nil => rfl
  | last body some_ unended =>
    have last : body.getLast? ≠ some '\n' := fun last => unended (List.mem_of_getLast? last)
    simp [closed, last, some_]
  | @cons body more unended rest ih =>
    cases more with
    | nil => simp [closed]
    | cons next more =>
      have later : (next :: more).flatten ≠ [] := by
        cases rest with
        | last _ some_ _ => simpa using some_
        | cons _ _ _ => simp
      have whole : ((body ++ ['\n']) :: next :: more).flatten ≠ [] := by simp
      have last : ((body ++ ['\n']) :: next :: more).flatten.getLast? = (next :: more).flatten.getLast? := by
        rw [List.flatten_cons, List.getLast?_append_of_ne_nil _ later]
      rw [last]
      simp only [ne_eq, whole, not_false_eq_true, true_and]
      simp only [ne_eq, later, not_false_eq_true, true_and] at ih
      rw [closed, List.flatten_cons, ih, ← List.append_assoc, ← List.flatten_cons]

theorem closed_trims (segments : List (List Char)) : (closed segments).map trim = segments.map trim := by
  induction segments using closed.induct with
  | case1 => rfl
  | case2 last =>
    simp only [closed, List.map_cons, List.map_nil]
    split
    · rfl
    · have blank : Blank ['\n'] := by simp [Blank, isWhitespace]
      rw [trim_white_right last blank]
  | case3 line next more ih => rw [closed, List.map_cons, ih]; rfl

theorem closed_apart (none_ : assigning name segments = []) : others name (closed segments) = closed segments := by
  have apart : ∀ line ∈ segments, assigns line name = false := by simpa [assigning] using none_
  simp only [others, List.filter_eq_self]
  intro line member
  have listed : trim line ∈ segments.map trim := by
    rw [← closed_trims]
    exact List.mem_map_of_mem member
  obtain ⟨original, among, same⟩ := List.mem_map.mp listed
  rw [assigns_congr same.symm, apart original among]
  rfl

theorem edited_shape {text : List Char} (named : Named name) (taken : ∀ value, taken_ = some value → Taken value) :
    ∃ made, Cut '\n' made ∧ made.flatten = edited_text text name taken_ ∧
      (others name made = others name (splitInclusive '\n' text) ∨
        others name made = closed (others name (splitInclusive '\n' text))) ∧
      Places name taken_ (assigning name made) := by
  have cut : Cut '\n' (splitInclusive '\n' text) := splitInclusive_cut text
  unfold edited_text
  generalize splitInclusive '\n' text = segments at cut
  cases taken_ with
  | none =>
    rw [edit_lines_drops (Or.inl rfl)]
    refine ⟨others name segments, cut_filter _ cut, rfl, Or.inl ?_, ?_⟩
    · simp [others, List.filter_filter]
    · simp [Places, assigning, others, List.filter_filter]
  | some value =>
    have taken := taken value rfl
    obtain ⟨kept, places⟩ := @edit_lines_places name value segments named taken
    have made := edit_lines_cut named taken cut
    generalize edit_lines name (some value) false segments = result at kept places made
    obtain ⟨pieces, written⟩ := result
    cases written with
    | true => exact ⟨pieces, made, rfl, Or.inl kept, places⟩
    | false =>
      obtain ⟨rfl, none_⟩ := places
      have plain := assignment_plain named taken
      have placed : assigns (assignment name value ++ ['\n']) name = true :=
        assigns_assignment named taken (by simp [isEnding])
      have whole : others name pieces = pieces := by
        simp only [others, List.filter_eq_self]
        simpa [assigning] using none_
      refine ⟨closed pieces ++ [assignment name value ++ ['\n']], closed_cut cut plain, ?_, Or.inr ?_, ?_⟩
      · dsimp only
        rw [List.flatten_append, closed_flatten cut, appended]
        simp
      · have apart := closed_apart none_
        rw [whole]
        simpa [others, placed] using apart
      · have apart := closed_apart none_
        refine ⟨['\n'], by simp, by simp [isEnding], ?_⟩
        have none_ : assigning name (closed pieces) = [] := by
          rw [← apart]
          simp [assigning, others, List.filter_filter]
        rw [assigning, List.filter_append, List.filter_singleton, placed]
        simpa [assigning] using none_

/-! ### A second edit -/

theorem ending_assignment (taken : Taken value) (ends : ∀ c ∈ ending, isEnding c = true) :
    (assignment name value ++ ending).rtakeWhile isEnding = ending := by
  have last : isEnding (value.getLast taken.some_) = false := by
    have printed := taken.printed _ (List.getLast_mem taken.some_)
    rw [Bool.eq_false_iff]
    intro ends
    simp only [isEnding, Bool.or_eq_true, decide_eq_true_eq] at ends
    rcases ends with same | same <;> rw [same] at printed <;> revert printed <;> decide
  have bare : (assignment name value).rtakeWhile isEnding = [] := by
    have whole : assignment name value = (name ++ '=' :: value.dropLast) ++ [value.getLast taken.some_] := by
      simp [assignment, List.dropLast_append_getLast]
    rw [whole, List.rtakeWhile_concat_neg _ _ _ (by simp [last])]
  rw [List.rtakeWhile, List.reverse_append, List.takeWhile_append_of_pos (by simpa using ends), List.reverse_append,
    List.reverse_reverse]
  rw [List.rtakeWhile] at bare
  rw [bare, List.nil_append]

theorem edit_lines_again {made : List (List Char)} (taken : Taken value)
    (places : Places name (some value) (assigning name made)) : edit_lines name (some value) false made = (made, true) := by
  obtain ⟨ending, some_, ends, placed⟩ := places
  induction made with
  | nil => simp [assigning] at placed
  | cons line made ih =>
    rw [edit_lines]
    by_cases here : assigns line name = true
    · rw [assigning, List.filter_cons, if_pos here] at placed
      obtain ⟨rfl, none_⟩ := List.cons.inj placed
      have whole : others name made = made := by
        simp only [others, List.filter_eq_self]
        simpa using none_
      rw [if_pos here, edit_lines_drops (Or.inr rfl), ending_assignment taken ends]
      dsimp only
      rw [if_neg some_, whole]
    · rw [if_neg here]
      rw [assigning, List.filter_cons, if_neg here] at placed
      rw [ih placed]

theorem edited_again {made : List (List Char)} (taken : ∀ value, taken_ = some value → Taken value)
    (cut : Cut '\n' made) (places : Places name taken_ (assigning name made)) :
    edited_text made.flatten name taken_ = made.flatten := by
  unfold edited_text
  rw [cut_flatten cut]
  cases taken_ with
  | none =>
    have whole : others name made = made := by
      simp only [others, List.filter_eq_self]
      simpa [Places, assigning] using places
    rw [edit_lines_drops (Or.inl rfl), whole]
  | some value => rw [edit_lines_again (taken value rfl) places]

variable {entries : List (List Char × List Char)} {text : List Char}

theorem read_of_congr {a b : List Char} (same : trim a = trim b) : read_of a = read_of b := by
  unfold read_of
  rw [read_line_congr same]

theorem valuesOf_congr {a b : List (List Char)} (same : a.map trim = b.map trim) : valuesOf name a = valuesOf name b := by
  have reads : a.map read_of = b.map read_of := by
    induction a generalizing b with
    | nil =>
      cases b with
      | nil => rfl
      | cons _ _ => simp at same
    | cons raw a ih =>
      cases b with
      | nil => simp at same
      | cons other b =>
        obtain ⟨first, rest⟩ := List.cons.inj same
        rw [List.map_cons, List.map_cons, read_of_congr first, ih rest]
  have filtered (raws : List (List Char)) : raws.filterMap read_of = (raws.map read_of).filterMap id := by
    rw [List.filterMap_map]
    rfl
  rw [valuesOf, valuesOf, filtered a, filtered b, reads]

theorem lines_trim (text : List Char) : (lines text).map trim = (splitInclusive '\n' text).map trim := by
  rw [lines, List.map_map]
  exact List.map_congr_left fun line _ => trim_unterminated line

theorem read_of_assigned {assigned : List Char} (read : read_of raw = some (assigned, value)) :
    assigns raw assigned = true := by
  apply (read_of_name ?_).mp ⟨value, read⟩
  unfold read_of at read
  unfold Read
  split at read
  · rename_i first second same
    exact Or.inr ⟨first, second, same⟩
  · cases read

theorem assigns_one {other : List Char} (first : assigns raw name = true) (second : assigns raw other = true) :
    name = other := by
  unfold assigns at first second
  dsimp only at first second
  split at first
  · cases first
  · split at first
    · cases first
    · simp_all

theorem valuesOf_others {other : List Char} (different : other ≠ name) (raws : List (List Char)) :
    valuesOf other raws = valuesOf other (others name raws) := by
  induction raws with
  | nil => rfl
  | cons raw raws ih =>
    rw [valuesOf_cons, others, List.filter_cons]
    split
    · rw [valuesOf_cons raw (raws.filter _), ih]
      rfl
    · rename_i assigned
      have none_ : valuesOf other [raw] = [] := by
        cases read : read_of raw with
        | none => simp [valuesOf, read]
        | some found =>
          have same := assigns_one (by simpa using assigned) (read_of_assigned read)
          have apart : found.1 ≠ other := fun is => different (is.symm.trans same.symm)
          simp [valuesOf, read, apart]
      rw [none_, List.nil_append, ih]
      rfl

theorem valuesOf_assigning (raws : List (List Char)) : valuesOf name raws = valuesOf name (assigning name raws) := by
  induction raws with
  | nil => rfl
  | cons raw raws ih =>
    rw [valuesOf_cons, assigning, List.filter_cons]
    split
    · rw [valuesOf_cons raw (raws.filter _), ih]
      rfl
    · rename_i apart
      have none_ : valuesOf name [raw] = [] := by
        cases read : read_of raw with
        | none => simp [valuesOf, read]
        | some found =>
          have other : found.1 ≠ name := by
            rintro rfl
            exact apart (read_of_assigned read)
          simp [valuesOf, read, other]
      rw [none_, List.nil_append, ih]
      rfl

theorem read_unterminated (line : List Char) : Read (unterminated line) ↔ Read line := by
  unfold Read
  rw [read_line_congr (trim_unterminated line)]

theorem parse_reads : (∃ entries, parse text path = .ok entries) ↔ ∀ line ∈ splitInclusive '\n' text, Read line := by
  rw [parse_ok, lines, List.forall_mem_map]
  exact forall₂_congr fun line _ => read_unterminated line

theorem parse_values (parsed : parse text path = .ok entries) (name : List Char) :
    held entries name = (valuesOf name (splitInclusive '\n' text)).getLast? := by
  rw [parse_held parsed, valuesOf_congr (lines_trim text)]

theorem others_trims {made : List (List Char)} {segments : List (List Char)}
    (kept : others name made = others name segments ∨ others name made = closed (others name segments)) :
    (others name made).map trim = (others name segments).map trim := by
  rcases kept with same | same
  · rw [same]
  · rw [same, closed_trims]

/-- The value is not written in quotes, which the reader takes off, and is no secret reference, which it refuses. -/
def Bare (value : List Char) : Prop := unquote value = value ∧ "gopass:".toList.isPrefixOf value = false

theorem read_placed (named : Named name) (taken : Taken value) (ends : ∀ c ∈ ending, isEnding c = true) (bare : Bare value) :
    read_line (assignment name value ++ ending) = .assigned name value := by
  rw [read_assignment named taken ends, bare.1, bare.2]
  rfl

theorem edited_reads {made : List (List Char)} (named : Named name) (taken : ∀ value, taken_ = some value → Taken value)
    (accepted : ∀ line ∈ splitInclusive '\n' text, Read line)
    (kept : others name made = others name (splitInclusive '\n' text) ∨
      others name made = closed (others name (splitInclusive '\n' text)))
    (places : Places name taken_ (assigning name made)) (bare : ∀ value, taken_ = some value → Bare value) :
    ∀ line ∈ made, Read line := by
  intro line member
  by_cases here : assigns line name = true
  · have placed : line ∈ assigning name made := List.mem_filter.mpr ⟨member, here⟩
    cases taken_ with
    | none =>
      rw [places] at placed
      cases placed
    | some value =>
      obtain ⟨ending, _, ends, same⟩ := places
      rw [same, List.mem_singleton] at placed
      subst placed
      exact Or.inr ⟨name, value, read_placed named (taken value rfl) ends (bare value rfl)⟩
  · have among : line ∈ others name made := List.mem_filter.mpr ⟨member, by simpa using here⟩
    have listed : trim line ∈ (others name made).map trim := List.mem_map_of_mem among
    rw [others_trims kept] at listed
    obtain ⟨original, found, same⟩ := List.mem_map.mp listed
    have read := accepted original (List.mem_filter.mp found).1
    unfold Read at read ⊢
    rwa [← read_line_congr same]

theorem edited_value {made : List (List Char)} (named : Named name) (taken : ∀ value, taken_ = some value → Taken value)
    (places : Places name taken_ (assigning name made)) (bare : ∀ value, taken_ = some value → Bare value) :
    (valuesOf name made).getLast? = taken_ := by
  rw [valuesOf_assigning]
  cases taken_ with
  | none =>
    rw [places]
    rfl
  | some value =>
    obtain ⟨ending, _, ends, same⟩ := places
    have read := read_placed named (taken value rfl) ends (bare value rfl)
    have some_ := (taken value rfl).some_
    simp [same, valuesOf, read_of, read, some_]

theorem store_names (name value : List Char) (entries : List (List Char × List Char)) :
    (store name value entries).map Prod.fst =
      if name ∈ entries.map Prod.fst then entries.map Prod.fst else entries.map Prod.fst ++ [name] := by
  induction entries with
  | nil => simp [store]
  | cons entry rest ih =>
    obtain ⟨first, kept⟩ := entry
    rw [store]
    by_cases here : first = name
    · simp [here]
    · simp only [if_neg here, List.map_cons, ih, List.mem_cons, Ne.symm here, false_or]
      split <;> rfl

theorem parse_lines_names {index : Nat} {raws : List (List Char)} {after : List (List Char × List Char)}
    (parsed : parse_lines path index entries raws = .ok after) (distinct : (entries.map Prod.fst).Nodup) :
    (after.map Prod.fst).Nodup := by
  induction raws generalizing index entries with
  | nil =>
    rw [parse_lines] at parsed
    cases parsed
    exact distinct
  | cons raw raws ih =>
    rw [parse_lines] at parsed
    split at parsed
    case h_1 => exact ih parsed distinct
    case h_6 name value _ =>
      apply ih parsed
      split
      · exact distinct
      · rw [store_names]
        split
        · exact distinct
        · rename_i fresh
          exact List.nodup_append.mpr ⟨distinct, by simp, by simpa using fun a b listed same => fresh (by
            subst same
            exact List.mem_map_of_mem listed)⟩
    all_goals cases parsed

theorem checked_taken (same : checked (some raw) = .ok taken_) :
    taken_ = some (trim raw) ∧ trim raw ≠ [] ∧ byteLen (trim raw) ≤ MAX_VALUE_BYTES ∧ ∀ c ∈ trim raw, isControl c = false := by
  unfold checked at same
  dsimp only at same
  split at same
  · cases same
  · rename_i some_
    split at same
    · cases same
    · rename_i short
      split at same
      · cases same
      · rename_i printed
        cases same
        exact ⟨rfl, some_, by omega, by simpa using printed⟩

theorem taken_of (printed : ∀ c ∈ trim raw, isControl c = false) (some_ : trim raw ≠ []) : Taken (trim raw) :=
  ⟨some_, trim_trim raw, printed⟩

theorem checked_all {given : Option (List Char)} (same : checked given = .ok taken_) :
    taken_ = given.map trim ∧ ∀ value, taken_ = some value → Taken value := by
  cases given with
  | none =>
    cases same
    exact ⟨rfl, fun _ none_ => by cases none_⟩
  | some raw =>
    obtain ⟨rfl, some_, _, printed⟩ := checked_taken same
    refine ⟨rfl, ?_⟩
    rintro value ⟨⟩
    exact taken_of printed some_

theorem edit_text_eq {given : Option (List Char)} (same : checked given = .ok taken_)
    (accepted : parse text path = .ok entries) :
    edit_text text name given path =
      match parse (edited_text text name taken_) path with
      | .error reason => .error reason
      | .ok after =>
        if held after name ≠ taken_ then .error (misread name taken_)
        else .ok ⟨edited_text text name taken_, edited_text text name taken_ ≠ text⟩ := by
  unfold edit_text
  rw [same, accepted]
  cases read : parse (edited_text text name taken_) path <;> simp [bind, Except.bind, Except.mapError, read]

theorem edit_bare (named : Named name) {given : Option (List Char)} {edited : Edited} (same : checked given = .ok taken_)
    (accepted : parse text path = .ok entries) (done : edit_text text name given path = .ok edited) :
    edited = ⟨edited_text text name taken_, edited_text text name taken_ ≠ text⟩ ∧
      (∃ after, parse edited.text path = .ok after ∧ held after name = taken_) ∧
      ∀ value, taken_ = some value → Bare value := by
  obtain ⟨_, taken⟩ := checked_all same
  rw [edit_text_eq same accepted] at done
  cases read : parse (edited_text text name taken_) path with
  | error reason =>
    rw [read] at done
    cases done
  | ok after =>
    rw [read] at done
    dsimp only at done
    split at done
    · cases done
    · rename_i reads
      cases done
      rw [not_not] at reads
      refine ⟨rfl, ⟨after, read, reads⟩, ?_⟩
      rintro value rfl
      obtain ⟨made, cut, whole, _, ending, _, ends, placed⟩ := @edited_shape name (some value) text named taken
      have taken := taken value rfl
      have lines : splitInclusive '\n' (edited_text text name (some value)) = made := by rw [← whole, cut_flatten cut]
      have values := parse_values read name
      rw [reads, lines, valuesOf_assigning, placed] at values
      have member : assignment name value ++ ending ∈ made := by
        have listed : assignment name value ++ ending ∈ assigning name made := by simp [placed]
        exact (List.mem_filter.mp listed).1
      have line := parse_reads.mp ⟨after, read⟩ _ (lines ▸ member)
      have shown := read_assignment named taken ends
      unfold Read at line
      rw [shown] at line
      split at line
      · simp at line
      · rename_i rendered
        rw [if_neg rendered] at shown
        simp only [valuesOf, read_of, shown, List.filterMap_cons, List.filterMap_nil, true_and] at values
        by_cases empty : unquote value = []
        · simp [empty] at values
        · have bare : unquote value = value := by simpa [empty] using values.symm
          rw [bare] at rendered
          exact ⟨bare, Bool.eq_false_iff.mpr rendered⟩

theorem edit_succeeds (named : Named name) {given : Option (List Char)} (same : checked given = .ok taken_)
    (accepted : parse text path = .ok entries) (bare : ∀ value, taken_ = some value → Bare value) :
    edit_text text name given path = .ok ⟨edited_text text name taken_, edited_text text name taken_ ≠ text⟩ := by
  obtain ⟨_, taken⟩ := checked_all same
  obtain ⟨made, cut, whole, kept, places⟩ := @edited_shape name taken_ text named taken
  have lines : splitInclusive '\n' (edited_text text name taken_) = made := by rw [← whole, cut_flatten cut]
  have reads := edited_reads named taken (parse_reads.mp ⟨entries, accepted⟩) kept places bare
  obtain ⟨after, read⟩ := (@parse_reads path (edited_text text name taken_)).mpr (by rwa [lines])
  have value : held after name = taken_ := by
    rw [parse_values read, lines]
    exact edited_value named taken places bare
  rw [edit_text_eq same accepted, read]
  simp [value]

/-- An edit of the credentials file sets the variable to the trimmed value, or removes it, and leaves every other variable
and every line that does not assign it; made again, it changes nothing. It goes through for every removal, and for exactly the
values within its bounds that read back as they are written. -/
theorem edits_one_variable (accepted : parse text path = .ok entries) (named : Named name) (given : Option (List Char)) :
    (∀ edited, edit_text text name given path = .ok edited →
      (∃ after, parse edited.text path = .ok after ∧ (after.map Prod.fst).Nodup ∧ held after name = given.map trim ∧
        ∀ other, other ≠ name → held after other = held entries other) ∧
      (others name (splitInclusive '\n' edited.text) = others name (splitInclusive '\n' text) ∨
        others name (splitInclusive '\n' edited.text) = closed (others name (splitInclusive '\n' text))) ∧
      edit_text edited.text name given path = .ok ⟨edited.text, false⟩) ∧
    ((∃ edited, edit_text text name given path = .ok edited) ↔
      ∀ raw, given = some raw → trim raw ≠ [] ∧ byteLen (trim raw) ≤ MAX_VALUE_BYTES ∧
        (∀ c ∈ trim raw, isControl c = false) ∧ Bare (trim raw)) ∧
    ∀ line ∈ splitInclusive '\n' text, assigns line name = true ↔
      ∃ value, read_line (unterminated line) = .assigned name value := by
  refine ⟨?_, ⟨?_, ?_⟩, ?_⟩
  · intro edited done
    cases same : checked given with
    | error reason =>
      rw [edit_text, same] at done
      cases done
    | ok taken_ =>
      obtain ⟨rfl, ⟨after, read, value⟩, bare⟩ := edit_bare named same accepted done
      obtain ⟨is, taken⟩ := checked_all same
      obtain ⟨made, cut, whole, kept, places⟩ := @edited_shape name taken_ text named taken
      have lines : splitInclusive '\n' (edited_text text name taken_) = made := by rw [← whole, cut_flatten cut]
      refine ⟨⟨after, read, parse_lines_names read (by simp), by rw [value, is], ?_⟩, by rwa [lines], ?_⟩
      · intro other different
        rw [parse_values read, parse_values accepted, lines, valuesOf_others different,
          valuesOf_others different (splitInclusive _ _)]
        rw [valuesOf_congr (others_trims kept)]
      · have again := edited_again taken cut places
        rw [whole] at again
        rw [edit_succeeds named same read bare, again]
        simp
  · rintro ⟨edited, done⟩ raw rfl
    cases same : checked (some raw) with
    | error reason =>
      rw [edit_text, same] at done
      cases done
    | ok taken_ =>
      obtain ⟨_, _, bare⟩ := edit_bare named same accepted done
      obtain ⟨rfl, some_, short, printed⟩ := checked_taken same
      exact ⟨some_, short, printed, bare _ rfl⟩
  · intro allowed
    cases given with
    | none => exact ⟨_, edit_succeeds named rfl accepted fun _ none_ => by cases none_⟩
    | some raw =>
      obtain ⟨some_, short, printed, bare⟩ := allowed raw rfl
      have same : checked (some raw) = .ok (some (trim raw)) := by
        rw [checked, if_neg some_, if_neg (by omega), if_neg (by simpa using printed)]
      refine ⟨_, edit_succeeds named same accepted ?_⟩
      rintro value ⟨⟩
      exact bare
  · intro line member
    have read := (read_unterminated line).mpr (parse_reads.mp ⟨entries, accepted⟩ line member)
    rw [← assigns_iff read, assigns_congr (trim_unterminated line)]

/-- A placeholder and an older value of one variable, with another's between them. -/
theorem edits_one_variable_placeholder :
    let text := "export KEY=\nOTHER=b # c\r\nKEY='a'".toList
    ∃ edited, edit_text text "KEY".toList (some " new ".toList) "credentials.env" = .ok edited := by
  intro text
  have accepted : parse text "credentials.env" = .ok [("OTHER".toList, "b # c".toList), ("KEY".toList, "a".toList)] := rfl
  have named : Named "KEY".toList := ⟨by decide, List.all_eq_true.mp (by decide)⟩
  apply (edits_one_variable accepted named (some " new ".toList)).2.1.mpr
  rintro raw ⟨⟩
  have printed : (trim " new ".toList).all (fun c => !isControl c) = true := by decide
  exact ⟨by decide, by decide, by simpa using printed, by decide, by decide⟩

/-- A value in quotes is written in a pair of the other kind, and the editor writes none. -/
theorem quoted_value_refused :
    ¬∀ (text name value : List Char) (path : String) (entries : List (List Char × List Char)), parse text path = .ok entries →
      Named name → value ≠ [] → byteLen value ≤ MAX_VALUE_BYTES → (∀ c ∈ value, isControl c = false) →
      (∃ other read, parse other path = .ok read ∧ held read name = some value) →
      ∃ edited, edit_text text name (some value) path = .ok edited := by
  intro claimed
  have expressed : parse "KEY=\"'a'\"".toList "credentials.env" = .ok [("KEY".toList, "'a'".toList)] := rfl
  have named : Named "KEY".toList := ⟨by decide, List.all_eq_true.mp (by decide)⟩
  have printed : "'a'".toList.all (fun c => !isControl c) = true := by decide
  obtain ⟨edited, done⟩ := claimed [] "KEY".toList "'a'".toList "credentials.env" [] rfl named (by decide) (by decide)
    (by simpa using printed) ⟨_, _, expressed, rfl⟩
  have refused : edit_text [] "KEY".toList (some "'a'".toList) "credentials.env" = .error (misread [] (some [])) := rfl
  rw [refused] at done
  cases done

end CommonMeasure.Supply.Credentials
