import Mathlib

/-!
# Spans of a text

A text is its characters.
-/

namespace CommonMeasure

/-- `str::len`. -/
def byteLen (text : List Char) : Nat := (text.map Char.utf8Size).sum

@[simp] theorem byteLen_nil : byteLen [] = 0 := rfl

@[simp] theorem byteLen_cons (c : Char) (text : List Char) : byteLen (c :: text) = c.utf8Size + byteLen text := rfl

@[simp] theorem byteLen_append (a b : List Char) : byteLen (a ++ b) = byteLen a + byteLen b := by
  simp [byteLen]

theorem byteLen_pos {text : List Char} (some_ : text ≠ []) : 0 < byteLen text := by
  cases text with
  | nil => exact (some_ rfl).elim
  | cons c text =>
    have := c.utf8Size_pos
    rw [byteLen_cons]
    omega

def dropBytes : List Char → Nat → Option (List Char)
  | text, 0 => some text
  | [], _ + 1 => none
  | c :: text, n + 1 => if c.utf8Size ≤ n + 1 then dropBytes text (n + 1 - c.utf8Size) else none

def takeBytes : List Char → Nat → Option (List Char)
  | _, 0 => some []
  | [], _ + 1 => none
  | c :: text, n + 1 => if c.utf8Size ≤ n + 1 then (takeBytes text (n + 1 - c.utf8Size)).map (c :: ·) else none

/-- `str::get` of a range of bytes. -/
def slice (text : List Char) (start stop : Nat) : Option (List Char) :=
  if start ≤ stop then (dropBytes text start).bind (takeBytes · (stop - start)) else none

def Lies (text : List Char) (start stop : Nat) (part : List Char) : Prop :=
  ∃ before after, text = before ++ part ++ after ∧ byteLen before = start ∧ start + byteLen part = stop

theorem dropBytes_append (before after : List Char) : dropBytes (before ++ after) (byteLen before) = some after := by
  induction before with
  | nil => cases after <;> rfl
  | cons c before ih =>
    have positive := c.utf8Size_pos
    rw [byteLen_cons, List.cons_append]
    obtain ⟨n, same⟩ : ∃ n, c.utf8Size + byteLen before = n + 1 := ⟨c.utf8Size + byteLen before - 1, by omega⟩
    rw [same, dropBytes, if_pos (by omega), show n + 1 - c.utf8Size = byteLen before by omega, ih]

theorem takeBytes_append (part after : List Char) : takeBytes (part ++ after) (byteLen part) = some part := by
  induction part with
  | nil => cases after <;> rfl
  | cons c part ih =>
    have positive := c.utf8Size_pos
    rw [byteLen_cons, List.cons_append]
    obtain ⟨n, same⟩ : ∃ n, c.utf8Size + byteLen part = n + 1 := ⟨c.utf8Size + byteLen part - 1, by omega⟩
    rw [same, takeBytes, if_pos (by omega), show n + 1 - c.utf8Size = byteLen part by omega, ih]
    rfl

theorem dropBytes_some {text rest : List Char} {n : Nat} (dropped : dropBytes text n = some rest) :
    ∃ before, text = before ++ rest ∧ byteLen before = n := by
  induction text generalizing n with
  | nil =>
    cases n with
    | zero => exact ⟨[], by cases dropped; rfl, rfl⟩
    | succ n => cases dropped
  | cons c text ih =>
    cases n with
    | zero => exact ⟨[], by cases dropped; rfl, rfl⟩
    | succ n =>
      rw [dropBytes] at dropped
      split at dropped
      · rename_i fits
        obtain ⟨before, rfl, length⟩ := ih dropped
        exact ⟨c :: before, rfl, by rw [byteLen_cons, length]; omega⟩
      · cases dropped

theorem takeBytes_some {text part : List Char} {n : Nat} (taken : takeBytes text n = some part) :
    ∃ after, text = part ++ after ∧ byteLen part = n := by
  induction text generalizing n part with
  | nil =>
    cases n with
    | zero => exact ⟨[], by cases taken; rfl, by cases taken; rfl⟩
    | succ n => cases taken
  | cons c text ih =>
    cases n with
    | zero => exact ⟨c :: text, by cases taken; rfl, by cases taken; rfl⟩
    | succ n =>
      rw [takeBytes] at taken
      split at taken
      · rename_i fits
        obtain ⟨inner, found, rfl⟩ := Option.map_eq_some_iff.mp taken
        obtain ⟨after, rfl, length⟩ := ih found
        exact ⟨after, rfl, by rw [byteLen_cons, length]; omega⟩
      · cases taken

theorem slice_iff {text part : List Char} {start stop : Nat} :
    slice text start stop = some part ↔ Lies text start stop part := by
  unfold slice
  constructor
  · intro held
    split at held
    · rename_i ordered
      obtain ⟨rest, dropped, taken⟩ := Option.bind_eq_some_iff.mp held
      obtain ⟨before, rfl, length⟩ := dropBytes_some dropped
      obtain ⟨after, rfl, size⟩ := takeBytes_some taken
      exact ⟨before, after, (List.append_assoc _ _ _).symm, length, by omega⟩
    · cases held
  · rintro ⟨before, after, rfl, rfl, rfl⟩
    rw [if_pos (Nat.le_add_right _ _), List.append_assoc, dropBytes_append, Option.bind_some, Nat.add_sub_cancel_left,
      takeBytes_append]

theorem Lies.unique {text part other : List Char} {start stop : Nat} (lies : Lies text start stop part)
    (also : Lies text start stop other) : part = other :=
  Option.some_inj.mp ((slice_iff.mpr lies).symm.trans (slice_iff.mpr also))

theorem append_inj_of_byteLen {a b c d : List Char} (same : a ++ b = c ++ d) (length : byteLen a = byteLen c) :
    a = c ∧ b = d := by
  have left : Lies (a ++ b) 0 (byteLen a) a := ⟨[], b, rfl, rfl, Nat.zero_add _⟩
  have right : Lies (a ++ b) 0 (byteLen a) c := ⟨[], d, same, rfl, by rw [length, Nat.zero_add]⟩
  obtain rfl := left.unique right
  exact ⟨rfl, List.append_cancel_left same⟩

section

variable {a b part : List Char} {start stop : Nat}

theorem Lies.beyond (lies : Lies (a ++ b) start stop part) (ahead : byteLen a ≤ start) :
    ∃ before after, b = before ++ part ++ after ∧ byteLen a + byteLen before = start ∧ start + byteLen part = stop := by
  obtain ⟨front, after, same, rfl, ends⟩ := lies
  rw [List.append_assoc] at same
  rcases List.append_eq_append_iff.mp same with ⟨more, rfl, rfl⟩ | ⟨more, rfl, tail⟩
  · exact ⟨more, after, by simp, by rw [byteLen_append], ends⟩
  · rw [byteLen_append] at ahead
    have nothing : more = [] := by
      by_contra some_
      have := byteLen_pos some_
      omega
    subst nothing
    exact ⟨[], after, by simpa using tail.symm, by simp, ends⟩

theorem Lies.within (lies : Lies (a ++ b) start stop part) (before : stop ≤ byteLen a) : Lies a start stop part := by
  obtain ⟨front, after, same, rfl, rfl⟩ := lies
  rcases List.append_eq_append_iff.mp same with ⟨more, same, _⟩ | ⟨more, same, _⟩
  · have nothing : more = [] := by
      by_contra some_
      have := byteLen_pos some_
      have lengths := congrArg byteLen same
      simp only [byteLen_append] at lengths
      omega
    subst nothing
    exact ⟨front, [], by simpa using same.symm, rfl, rfl⟩
  · exact ⟨front, more, same, rfl, rfl⟩

theorem Lies.push (lies : Lies b start stop part) (a : List Char) :
    Lies (a ++ b) (byteLen a + start) (byteLen a + stop) part := by
  obtain ⟨front, after, rfl, rfl, rfl⟩ := lies
  exact ⟨a ++ front, after, by simp, by simp, by omega⟩

theorem lies_between {text before after front back : List Char} (one : text = before ++ after) (other : text = front ++ back)
    (ordered : byteLen before ≤ byteLen front) : ∃ part, Lies text (byteLen before) (byteLen front) part := by
  rcases List.append_eq_append_iff.mp (one.symm.trans other) with ⟨part, rfl, _⟩ | ⟨more, rfl, _⟩
  · exact ⟨part, before, back, other, rfl, (byteLen_append before part).symm⟩
  · have nothing : more = [] := by
      by_contra some_
      have := byteLen_pos some_
      rw [byteLen_append] at ordered
      omega
    subst nothing
    exact ⟨[], front, back, by simpa using other, by simp, by simp⟩

theorem Lies.inside {text inner : List Char} {first last : Nat} (lies : Lies text start stop part)
    (within : Lies part first last inner) : Lies text (start + first) (start + last) inner := by
  obtain ⟨before, after, rfl, rfl, _⟩ := lies
  obtain ⟨front, back, rfl, rfl, rfl⟩ := within
  exact ⟨before ++ front, back ++ after, by simp, by simp, by omega⟩

end

end CommonMeasure
