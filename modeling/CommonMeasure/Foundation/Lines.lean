import Mathlib.Data.List.Basic

/-!
# Newline-terminated files

A file of bytes is its terminated lines and the unterminated bytes after the last newline.
-/

namespace CommonMeasure

abbrev Bytes := List UInt8

def newline : UInt8 := 10

/-- A cut of `a ++ b` falls short of `a`, or takes all of `a` and a cut of `b`. -/
theorem cut_append {α : Type} {cut a b : List α} (prefixed : cut <+: a ++ b) :
    (cut <+: a ∧ cut ≠ a) ∨ ∃ rest, cut = a ++ rest ∧ rest <+: b := by
  obtain ⟨tail, whole⟩ := prefixed
  rcases List.append_eq_append_iff.mp whole with ⟨missing, full, _⟩ | ⟨rest, full, tailEq⟩
  · by_cases complete : cut = a
    · exact Or.inr ⟨[], by simp [complete], List.nil_prefix⟩
    · exact Or.inl ⟨⟨missing, full.symm⟩, complete⟩
  · exact Or.inr ⟨rest, full, ⟨tail, tailEq.symm⟩⟩

theorem cut_cons {α : Type} {cut b : List α} {a : α} (prefixed : cut <+: a :: b) :
    cut = [] ∨ ∃ rest, cut = a :: rest ∧ rest <+: b := by
  rcases cut_append (a := [a]) prefixed with ⟨short, different⟩ | full
  · rcases List.prefix_cons_iff.mp short with empty | ⟨rest, same, nothing⟩
    · exact Or.inl empty
    · rw [List.prefix_nil.mp nothing] at same
      exact (different same).elim
  · exact Or.inr full

def splitLines : Bytes → List Bytes × Bytes
  | [] => ([], [])
  | b :: rest =>
    if b = newline then ([] :: (splitLines rest).1, (splitLines rest).2)
    else match splitLines rest with
      | ([], tail) => ([], b :: tail)
      | (line :: more, tail) => ((b :: line) :: more, tail)

def joinLines (lines : List Bytes) : Bytes := lines.flatMap (· ++ [newline])

def LineFree (bytes : Bytes) : Prop := newline ∉ bytes

instance (bytes : Bytes) : Decidable (LineFree bytes) := by unfold LineFree; infer_instance

@[simp] theorem lineFree_nil : LineFree [] := by simp [LineFree]

@[simp] theorem lineFree_append {a b : Bytes} : LineFree (a ++ b) ↔ LineFree a ∧ LineFree b := by
  simp [LineFree]

theorem LineFree.cut {p line : Bytes} (free : LineFree line) (cut : p <+: line) : LineFree p :=
  fun member => free (cut.subset member)

@[simp] theorem joinLines_nil : joinLines [] = [] := rfl

@[simp] theorem joinLines_cons (line : Bytes) (lines : List Bytes) :
    joinLines (line :: lines) = line ++ newline :: joinLines lines := by
  simp [joinLines]

@[simp] theorem joinLines_append (a b : List Bytes) : joinLines (a ++ b) = joinLines a ++ joinLines b := by
  simp [joinLines]

@[simp] theorem splitLines_nil : splitLines [] = ([], []) := rfl

@[simp] theorem splitLines_newline (rest : Bytes) :
    splitLines (newline :: rest) = ([] :: (splitLines rest).1, (splitLines rest).2) := by
  simp [splitLines]

theorem joinLines_append_splitLines (bytes : Bytes) :
    joinLines (splitLines bytes).1 ++ (splitLines bytes).2 = bytes := by
  induction bytes with
  | nil => rfl
  | cons b rest ih =>
    rw [splitLines]
    split
    · rename_i same
      simp [same, ih]
    · split
      all_goals
        rename_i read
        rw [read] at ih
        simp at ih
        simp [ih]

theorem splitLines_free (bytes : Bytes) :
    (∀ line ∈ (splitLines bytes).1, LineFree line) ∧ LineFree (splitLines bytes).2 := by
  induction bytes with
  | nil => simp
  | cons b rest ih =>
    rw [splitLines]
    split
    · exact ⟨by simpa using ih.1, ih.2⟩
    · rename_i different
      have plain : newline ≠ b := Ne.symm different
      split
      · rename_i read
        rw [read] at ih
        exact ⟨by simp, by simpa [LineFree, plain] using ih.2⟩
      · rename_i read
        rw [read] at ih
        simp only [List.mem_cons, forall_eq_or_imp] at ih ⊢
        exact ⟨⟨by simpa [LineFree, plain] using ih.1.1, ih.1.2⟩, ih.2⟩

theorem splitLines_tail {tail : Bytes} (free : LineFree tail) : splitLines tail = ([], tail) := by
  induction tail with
  | nil => rfl
  | cons b rest ih =>
    simp only [LineFree, List.mem_cons, not_or] at free
    rw [splitLines, if_neg (Ne.symm free.1), ih free.2]

theorem splitLines_line {line : Bytes} (free : LineFree line) (rest : Bytes) :
    splitLines (line ++ newline :: rest) = (line :: (splitLines rest).1, (splitLines rest).2) := by
  induction line with
  | nil => simp
  | cons b line ih =>
    simp only [LineFree, List.mem_cons, not_or] at free
    rw [List.cons_append, splitLines, if_neg (Ne.symm free.1), ih free.2]

theorem splitLines_append {lines : List Bytes} (free : ∀ line ∈ lines, LineFree line) (rest : Bytes) :
    splitLines (joinLines lines ++ rest) = (lines ++ (splitLines rest).1, (splitLines rest).2) := by
  induction lines with
  | nil => simp
  | cons line lines ih =>
    simp only [List.mem_cons, forall_eq_or_imp] at free
    rw [joinLines_cons, List.append_assoc, List.cons_append, splitLines_line free.1, ih free.2]
    rfl

theorem splitLines_join {lines : List Bytes} {tail : Bytes}
    (free : ∀ line ∈ lines, LineFree line) (tailFree : LineFree tail) :
    splitLines (joinLines lines ++ tail) = (lines, tail) := by
  rw [splitLines_append free, splitLines_tail tailFree]
  simp

theorem splitLines_resume (file more : Bytes) :
    splitLines (file ++ more) =
      ((splitLines file).1 ++ (splitLines ((splitLines file).2 ++ more)).1,
        (splitLines ((splitLines file).2 ++ more)).2) := by
  conv_lhs => rw [← joinLines_append_splitLines file, List.append_assoc]
  exact splitLines_append (splitLines_free file).1 _

theorem splitLines_cut {cut bytes : Bytes} (prefixed : cut <+: bytes) : (splitLines cut).1 <+: (splitLines bytes).1 := by
  obtain ⟨more, rfl⟩ := prefixed
  rw [splitLines_resume]
  exact List.prefix_append _ _

theorem splitLines_break (a rest : Bytes) :
    splitLines (a ++ newline :: rest) =
      ((splitLines a).1 ++ (splitLines a).2 :: (splitLines rest).1, (splitLines rest).2) := by
  have free := splitLines_free a
  have whole : a ++ newline :: rest = joinLines (splitLines a).1 ++ ((splitLines a).2 ++ newline :: rest) := by
    rw [← List.append_assoc, joinLines_append_splitLines]
  rw [whole, splitLines_append free.1, splitLines_line free.2]

theorem cut_joinLines {lines : List Bytes} {cut : Bytes} (prefixed : cut <+: joinLines lines) :
    ∃ whole more part, lines = whole ++ more ∧ cut = joinLines whole ++ part ∧
      (part = [] ∨ ∃ line rest, more = line :: rest ∧ part <+: line) := by
  induction lines generalizing cut with
  | nil => exact ⟨[], [], [], rfl, by simpa using prefixed, Or.inl rfl⟩
  | cons line lines ih =>
    rw [joinLines_cons] at prefixed
    rcases cut_append prefixed with ⟨short, _⟩ | ⟨rest, rfl, inside⟩
    · exact ⟨[], line :: lines, cut, rfl, rfl, Or.inr ⟨line, lines, rfl, short⟩⟩
    · rcases cut_cons inside with rfl | ⟨rest, rfl, later⟩
      · exact ⟨[], line :: lines, line, rfl, by simp, Or.inr ⟨line, lines, rfl, List.prefix_refl _⟩⟩
      · obtain ⟨whole, more, part, rfl, rfl, ends⟩ := ih later
        exact ⟨line :: whole, more, part, rfl, by simp, ends⟩

theorem count_newline_free {bytes : Bytes} (free : LineFree bytes) : bytes.count newline = 0 :=
  List.count_eq_zero.mpr free

theorem count_joinLines {lines : List Bytes} (free : ∀ line ∈ lines, LineFree line) :
    (joinLines lines).count newline = lines.length := by
  induction lines with
  | nil => rfl
  | cons line lines ih =>
    simp only [List.mem_cons, forall_eq_or_imp] at free
    simp [count_newline_free free.1, ih free.2]

theorem count_newline (bytes : Bytes) : bytes.count newline = (splitLines bytes).1.length := by
  have free := splitLines_free bytes
  have same := congrArg (List.count newline) (joinLines_append_splitLines bytes)
  rw [List.count_append, count_joinLines free.1, count_newline_free free.2] at same
  omega

theorem splitLines_length (bytes : Bytes) : (splitLines bytes).1.length + (splitLines bytes).2.length ≤ bytes.length := by
  have whole := congrArg List.length (joinLines_append_splitLines bytes)
  have lines : (splitLines bytes).1.length ≤ (joinLines (splitLines bytes).1).length := by
    rw [← count_joinLines (splitLines_free bytes).1]
    exact List.count_le_length
  rw [List.length_append] at whole
  omega

def Terminated (bytes : Bytes) : Prop := (splitLines bytes).2 = []

instance (bytes : Bytes) : Decidable (Terminated bytes) := by unfold Terminated; infer_instance

theorem terminated_joinLines {lines : List Bytes} (free : ∀ line ∈ lines, LineFree line) :
    Terminated (joinLines lines) := by
  have read := splitLines_join free lineFree_nil
  rw [List.append_nil] at read
  rw [Terminated, read]

theorem Terminated.eq_joinLines {bytes : Bytes} (terminated : Terminated bytes) :
    joinLines (splitLines bytes).1 = bytes := by
  have join := joinLines_append_splitLines bytes
  rwa [terminated, List.append_nil] at join

end CommonMeasure
