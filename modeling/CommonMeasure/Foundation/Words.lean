import CommonMeasure.Foundation.Spans

/-!
# Words of a text

The words of a text are its longest stretches without white space, each with the span it lies in.
-/

namespace CommonMeasure

/-- `char::is_whitespace`. -/
def isWhitespace (c : Char) : Bool :=
  c.toNat = 32 || 9 ≤ c.toNat && c.toNat ≤ 13 || c.toNat = 0x85 || c.toNat = 0xA0 || c.toNat = 0x1680 ||
    0x2000 ≤ c.toNat && c.toNat ≤ 0x200A || c.toNat = 0x2028 || c.toNat = 0x2029 || c.toNat = 0x202F ||
    c.toNat = 0x205F || c.toNat = 0x3000

structure Word where
  text : List Char
  start : Nat
  stop : Nat
  deriving DecidableEq

def closeWord (index : Nat) (held : List Char) : List Word :=
  if held = [] then [] else [⟨held, index - byteLen held, index⟩]

def wordsFrom : Nat → List Char → List Char → List Word
  | index, held, [] => closeWord index held
  | index, held, c :: rest =>
    if isWhitespace c then closeWord index held ++ wordsFrom (index + c.utf8Size) [] rest
    else wordsFrom (index + c.utf8Size) (held ++ [c]) rest

def wordsAt (offset : Nat) (text : List Char) : List Word := wordsFrom offset [] text

def words (text : List Char) : List Word := wordsAt 0 text

def Blank (text : List Char) : Prop := ∀ c ∈ text, isWhitespace c = true

def Solid (text : List Char) : Prop := text ≠ [] ∧ ∀ c ∈ text, isWhitespace c = false

def Breaks (rest : List Char) : Prop := ∀ c ∈ rest.head?, isWhitespace c = true

inductive Laid : Nat → List Char → List Word → Prop
  | nil {offset text} : Blank text → Laid offset text []
  | cons {offset gap word rest ws} : Blank gap → Solid word → Breaks rest →
      Laid (offset + byteLen gap + byteLen word) rest ws →
      Laid offset (gap ++ word ++ rest)
        (⟨word, offset + byteLen gap, offset + byteLen gap + byteLen word⟩ :: ws)

section

variable {offset : Nat} {text a b : List Char} {ws vs : List Word}

theorem Blank.append (one : Blank a) (other : Blank b) : Blank (a ++ b) := by
  intro c listed
  rcases List.mem_append.mp listed with listed | listed
  · exact one c listed
  · exact other c listed

theorem Blank.breaks (blank : Blank a) : Breaks a := fun c listed => blank c (List.mem_of_mem_head? listed)

theorem Laid.gap (blank : Blank a) (laid : Laid (offset + byteLen a) b ws) : Laid offset (a ++ b) ws := by
  cases laid with
  | nil rest => exact .nil (blank.append rest)
  | cons gap solid breaks later =>
    rename_i inner word rest ws
    have moved : offset + byteLen a + byteLen inner = offset + byteLen (a ++ inner) := by rw [byteLen_append]; omega
    rw [moved] at later ⊢
    rw [← List.append_assoc, ← List.append_assoc]
    exact .cons (blank.append gap) solid breaks later

theorem wordsFrom_laid (index : Nat) (held : List Char) (rest : List Char) (before : byteLen held ≤ index)
    (solid : ∀ c ∈ held, isWhitespace c = false) :
    Laid (index - byteLen held) (held ++ rest) (wordsFrom index held rest) := by
  induction rest generalizing index held with
  | nil =>
    rw [wordsFrom, closeWord]
    split
    · rename_i empty
      subst empty
      exact .nil (by simp [Blank])
    · rename_i some_
      have one := @Laid.cons (index - byteLen held) [] held [] [] (by simp [Blank])
        ⟨some_, solid⟩ (by simp [Breaks]) (.nil (by simp [Blank]))
      simpa [Nat.sub_add_cancel before] using one
  | cons c rest ih =>
    rw [wordsFrom]
    split
    · rename_i white
      have later := ih (index + c.utf8Size) [] (Nat.zero_le _) (by simp)
      have moved : Laid index (c :: rest) (wordsFrom (index + c.utf8Size) [] rest) := by
        have blank : Blank [c] := by simpa [Blank] using white
        exact Laid.gap blank (by simpa using later)
      rw [closeWord]
      split
      · rename_i empty
        subst empty
        simpa using moved
      · rename_i some_
        have one := @Laid.cons (index - byteLen held) [] held (c :: rest) _ (by simp [Blank])
          ⟨some_, solid⟩ (by simpa [Breaks] using white)
          (by simpa [Nat.sub_add_cancel before] using moved)
        simpa [Nat.sub_add_cancel before] using one
    · rename_i black
      have later := ih (index + c.utf8Size) (held ++ [c]) (by simp; omega) (by
        intro d listed
        rcases List.mem_append.mp listed with listed | listed
        · exact solid d listed
        · obtain rfl := List.mem_singleton.mp listed
          simpa using black)
      have same : index + c.utf8Size - byteLen (held ++ [c]) = index - byteLen held := by
        simp only [byteLen_append, byteLen_cons, byteLen_nil]
        omega
      rw [same] at later
      simpa using later

theorem wordsAt_laid (offset : Nat) (text : List Char) : Laid offset text (wordsAt offset text) :=
  wordsFrom_laid offset [] text (Nat.zero_le _) (by simp)

theorem wordsFrom_append (index : Nat) (held a b : List Char) (breaks : Breaks b) :
    wordsFrom index held (a ++ b) = wordsFrom index held a ++ wordsAt (index + byteLen a) b := by
  induction a generalizing index held with
  | nil =>
    cases b with
    | nil => simp [wordsAt, wordsFrom, closeWord]
    | cons c b =>
      have white : isWhitespace c = true := breaks c rfl
      simp [wordsAt, wordsFrom, closeWord, white]
  | cons c a ih =>
    rw [List.cons_append, wordsFrom, wordsFrom, byteLen_cons, ← Nat.add_assoc]
    split
    · rw [ih, List.append_assoc]
    · exact ih _ _

theorem wordsAt_append (breaks : Breaks b) : wordsAt offset (a ++ b) = wordsAt offset a ++ wordsAt (offset + byteLen a) b :=
  wordsFrom_append offset [] a b breaks

theorem wordsAt_gap (blank : Blank a) : wordsAt offset (a ++ b) = wordsAt (offset + byteLen a) b := by
  induction a generalizing offset with
  | nil => rfl
  | cons c a ih =>
    have later := @ih (offset + c.utf8Size) fun c listed => blank c (List.mem_cons_of_mem _ listed)
    rw [List.cons_append, wordsAt, wordsFrom, if_pos (blank c List.mem_cons_self), byteLen_cons, ← Nat.add_assoc]
    exact later

theorem wordsAt_blank (blank : Blank a) : wordsAt offset a = [] := by
  have empty : wordsAt offset (a ++ []) = wordsAt (offset + byteLen a) [] := wordsAt_gap blank
  rw [List.append_nil] at empty
  rw [empty]
  rfl

theorem wordsFrom_solid (index : Nat) (held a : List Char) (solid : ∀ c ∈ a, isWhitespace c = false) :
    wordsFrom index held a = closeWord (index + byteLen a) (held ++ a) := by
  induction a generalizing index held with
  | nil => simp [wordsFrom]
  | cons c a ih =>
    rw [wordsFrom, solid c List.mem_cons_self, if_neg Bool.false_ne_true,
      ih _ _ fun d listed => solid d (List.mem_cons_of_mem _ listed), byteLen_cons]
    simp [Nat.add_assoc]

theorem wordsAt_solid (solid : Solid a) : wordsAt offset a = [⟨a, offset, offset + byteLen a⟩] := by
  rw [wordsAt, wordsFrom_solid _ _ _ solid.2, closeWord, List.nil_append, if_neg solid.1, Nat.add_sub_cancel]

theorem Laid.words (laid : Laid offset text ws) : wordsAt offset text = ws := by
  induction laid with
  | nil blank => exact wordsAt_blank blank
  | cons blank solid breaks later ih =>
    rw [List.append_assoc, wordsAt_gap blank, wordsAt_append breaks, wordsAt_solid solid, ih, List.singleton_append]

theorem wordsFrom_texts (index other : Nat) (held a : List Char) :
    (wordsFrom index held a).map Word.text = (wordsFrom other held a).map Word.text := by
  induction a generalizing index other held with
  | nil =>
    simp only [wordsFrom, closeWord]
    split <;> rfl
  | cons c a ih =>
    simp only [wordsFrom]
    split
    · rw [List.map_append, List.map_append, ih _ (other + c.utf8Size)]
      simp only [closeWord]
      split <;> rfl
    · exact ih _ _ _

def endOf (offset : Nat) (ws : List Word) : Nat := (ws.getLast?.map Word.stop).getD offset

@[simp] theorem endOf_nil : endOf offset [] = offset := rfl

theorem endOf_cons (w : Word) : endOf offset (w :: ws) = endOf w.stop ws := by
  cases ws with
  | nil => rfl
  | cons v ws =>
    unfold endOf
    rw [List.getLast?_cons_cons, List.getLast?_eq_some_getLast (List.cons_ne_nil v ws)]
    rfl

theorem Laid.split (laid : Laid offset text (ws ++ vs)) :
    ∃ a b, text = a ++ b ∧ Laid offset a ws ∧ offset + byteLen a = endOf offset ws ∧ Laid (endOf offset ws) b vs ∧
      (ws ≠ [] → Breaks b) := by
  induction ws generalizing offset text with
  | nil => exact ⟨[], text, rfl, .nil (by simp [Blank]), rfl, laid, fun some_ => (some_ rfl).elim⟩
  | cons w ws ih =>
    cases laid with
    | cons blank solid breaks later =>
      rename_i gap word rest
      obtain ⟨a, b, rfl, first, ends, second, breaksToo⟩ := ih later
      rw [endOf_cons]
      refine ⟨gap ++ word ++ a, b, by simp, ?_, by rw [← ends]; simp [Nat.add_assoc], second, ?_⟩
      · refine .cons blank solid ?_ first
        intro c listed
        refine breaks c ?_
        cases a with
        | nil => cases listed
        | cons d a => exact listed
      · intro _
        cases ws with
        | nil =>
          have nothing : a = [] := by
            by_contra some_
            have := byteLen_pos some_
            rw [endOf_nil] at ends
            omega
          subst nothing
          exact breaks
        | cons v ws => exact breaksToo (List.cons_ne_nil v ws)

theorem Laid.run {run : List Word} (laid : Laid offset text (ws ++ run ++ vs)) (some_ : run ≠ []) :
    ∃ before gap body after, text = before ++ gap ++ body ++ after ∧ offset + byteLen before = endOf offset ws ∧
      Blank gap ∧ endOf offset ws + byteLen gap = (run.head some_).start ∧
      (run.head some_).start + byteLen body = endOf offset (ws ++ run) ∧ Laid (run.head some_).start body run := by
  obtain ⟨front, after, rfl, first, ends, _, _⟩ := laid.split
  obtain ⟨before, rest, rfl, _, begins, second, _⟩ := first.split
  rw [byteLen_append, ← Nat.add_assoc, begins] at ends
  generalize endOf offset ws = start at *
  cases second with
  | nil _ => exact (some_ rfl).elim
  | @cons _ gap word rest run blank solid breaks later =>
    refine ⟨before, gap, word ++ rest, after, by simp, begins, blank, rfl, ?_, ?_⟩
    · simp only [byteLen_append] at ends ⊢
      simp only [List.head_cons]
      omega
    · have moved := @Laid.cons (start + byteLen gap) [] word rest run (by simp [Blank]) solid
        breaks (by simpa using later)
      simpa using moved

theorem Laid.placed (laid : Laid offset text ws) :
    (∀ w ∈ ws, offset ≤ w.start ∧ w.start < w.stop ∧ w.stop ≤ offset + byteLen text) ∧
      ws.Pairwise fun w v => w.stop ≤ v.start := by
  induction laid with
  | nil _ => simp
  | @cons offset gap word rest ws blank solid breaks later ih =>
    have some_ := byteLen_pos solid.1
    obtain ⟨within, ordered⟩ := ih
    simp only [byteLen_append]
    refine ⟨?_, List.pairwise_cons.mpr ⟨fun v listed => (within v listed).1, ordered⟩⟩
    intro w listed
    rcases List.mem_cons.mp listed with rfl | listed
    · dsimp only
      omega
    · have := within w listed
      omega

theorem Laid.solid (laid : Laid offset text ws) :
    ∀ w ∈ ws, Solid w.text := by
  induction laid with
  | nil _ => simp
  | cons _ solid _ _ ih =>
    intro w listed
    rcases List.mem_cons.mp listed with rfl | listed
    · exact solid
    · exact ih w listed

theorem words_laid (text : List Char) : Laid 0 text (words text) := wordsAt_laid 0 text

end

/-- `str::trim_start`. -/
def trimStart (text : List Char) : List Char := text.dropWhile isWhitespace

/-- `str::trim`. -/
def trim (text : List Char) : List Char := (trimStart text).rdropWhile isWhitespace

theorem trimStart_parts (text : List Char) : ∃ lead, Blank lead ∧ text = lead ++ trimStart text :=
  ⟨text.takeWhile isWhitespace, fun _ taken => List.mem_takeWhile_imp taken, (List.takeWhile_append_dropWhile).symm⟩

theorem trim_parts (text : List Char) : ∃ tail, Blank tail ∧ trimStart text = trim text ++ tail :=
  ⟨(trimStart text).rtakeWhile isWhitespace, fun _ taken => List.mem_rtakeWhile_imp taken,
    (List.rdropWhile_append_rtakeWhile).symm⟩

theorem trim_white_left {white : List Char} (blank : Blank white) (text : List Char) : trim (white ++ text) = trim text := by
  have led : trimStart (white ++ text) = trimStart text := by
    unfold trimStart
    rw [List.dropWhile_append, List.dropWhile_eq_nil_iff.mpr blank]
    rfl
  rw [trim, led, trim]

theorem trim_white_right (text : List Char) {white : List Char} (blank : Blank white) : trim (text ++ white) = trim text := by
  have tail (front : List Char) : (front ++ white).rdropWhile isWhitespace = front.rdropWhile isWhitespace := by
    simp only [List.rdropWhile, List.reverse_append]
    rw [List.dropWhile_append, List.dropWhile_eq_nil_iff.mpr (by simpa [Blank] using blank)]
    rfl
  unfold trim trimStart
  rw [List.dropWhile_append]
  split
  · rename_i none_
    rw [List.isEmpty_iff] at none_
    rw [none_, List.dropWhile_eq_nil_iff.mpr blank]
  · exact tail _

theorem trim_eq_nil {text : List Char} : trim text = [] ↔ Blank text := by
  constructor
  · intro none_
    obtain ⟨lead, blank, whole⟩ := trimStart_parts text
    obtain ⟨tail, white, rest⟩ := trim_parts text
    rw [none_, List.nil_append] at rest
    rw [whole, rest]
    intro c member
    rcases List.mem_append.mp member with first | second
    · exact blank c first
    · exact white c second
  · intro blank
    have nothing := trim_white_left blank []
    rw [List.append_nil] at nothing
    rw [nothing]
    rfl

theorem shorn_twice {α : Type} (p : α → Bool) (text : List α) :
    (((text.dropWhile p).rdropWhile p).dropWhile p).rdropWhile p = (text.dropWhile p).rdropWhile p := by
  have led : ((text.dropWhile p).rdropWhile p).dropWhile p = (text.dropWhile p).rdropWhile p := by
    rw [List.dropWhile_eq_self_iff]
    intro some_left
    have starts := List.rdropWhile_prefix p (text.dropWhile p)
    have long : 0 < (text.dropWhile p).length := Nat.lt_of_lt_of_le some_left starts.length_le
    have first : ((text.dropWhile p).rdropWhile p)[0] = (text.dropWhile p)[0] := starts.getElem some_left
    rw [first]
    exact List.dropWhile_eq_self_iff.mp (List.dropWhile_idempotent p text) _
  rw [led]
  exact List.rdropWhile_idempotent p _

theorem trim_trim (text : List Char) : trim (trim text) = trim text := shorn_twice isWhitespace text

end CommonMeasure
