import Mathlib.Data.List.Infix
import Mathlib.Data.Set.Finite.List
import Mathlib.Order.Preorder.Finite

/-!
# Globs

A glob is a list of literal items and runs, a run standing for any list of items.
-/

namespace CommonMeasure

variable {α : Type}

abbrev Glob (α : Type) := List (Option α)

inductive Fills : Glob α → List α → Prop
  | nil : Fills [] []
  | literal (c : α) {glob : Glob α} {text : List α} : Fills glob text → Fills (some c :: glob) (c :: text)
  | run (gap : List α) {glob : Glob α} {text : List α} : Fills glob text → Fills (none :: glob) (gap ++ text)

theorem fills_literals {part : List α} {glob : Glob α} {text : List α} :
    Fills (part.map some ++ glob) text ↔ ∃ rest, text = part ++ rest ∧ Fills glob rest := by
  induction part generalizing text with
  | nil => simp
  | cons c part ih =>
    constructor
    · intro filled
      cases filled with
      | literal _ inner =>
        obtain ⟨rest, rfl, fit⟩ := ih.mp inner
        exact ⟨rest, rfl, fit⟩
    · rintro ⟨rest, rfl, filled⟩
      exact .literal c (ih.mpr ⟨rest, rfl, filled⟩)

theorem fills_run {glob : Glob α} {text : List α} : Fills (none :: glob) text ↔ ∃ rest, rest <:+ text ∧ Fills glob rest := by
  constructor
  · intro filled
    cases filled with
    | run gap filled => exact ⟨_, List.suffix_append gap _, filled⟩
  · rintro ⟨rest, ⟨gap, rfl⟩, filled⟩
    exact .run gap filled

theorem Fills.widen {glob : Glob α} {rest text : List α} (filled : Fills (none :: glob) rest) (suffix : rest <:+ text) :
    Fills (none :: glob) text := by
  obtain ⟨last, inner, filled⟩ := fills_run.mp filled
  exact fills_run.mpr ⟨last, inner.trans suffix, filled⟩

theorem fills_open (text : List α) : Fills [none] text := fills_run.mpr ⟨[], List.nil_suffix, .nil⟩

theorem fills_nil {text : List α} : Fills [] text ↔ text = [] := by
  constructor
  · intro filled
    cases filled
    rfl
  · rintro rfl
    exact .nil

theorem fills_end {part text : List α} : Fills (none :: part.map some) text ↔ part <:+ text := by
  have exactly {rest : List α} : Fills (part.map some) rest ↔ rest = part := by
    rw [← List.append_nil (part.map some), fills_literals]
    simp [fills_nil]
  rw [fills_run]
  simp [exactly]

theorem Fills.split {a b : Glob α} {text : List α} (filled : Fills (a ++ b) text) :
    ∃ front back, text = front ++ back ∧ Fills a front ∧ Fills b back := by
  induction a generalizing text with
  | nil => exact ⟨[], text, rfl, .nil, filled⟩
  | cons item a ih =>
    cases filled with
    | literal c filled =>
      obtain ⟨front, back, rfl, first, second⟩ := ih filled
      exact ⟨c :: front, back, rfl, .literal c first, second⟩
    | run gap filled =>
      obtain ⟨front, back, rfl, first, second⟩ := ih filled
      exact ⟨gap ++ front, back, (List.append_assoc gap front back).symm, .run gap first, second⟩

section General

variable (mark : α)

def Glob.general (glob : Glob α) : List α := glob.map (·.getD mark)

theorem fills_general (glob : Glob α) : Fills glob (glob.general mark) := by
  induction glob with
  | nil => exact .nil
  | cons item glob ih =>
    cases item with
    | none => exact .run [mark] ih
    | some c => exact .literal c ih

variable {mark}

theorem Fills.sound {outer inner : Glob α} {text : List α} (plain : some mark ∉ outer)
    (general : Fills outer (inner.general mark)) (filled : Fills inner text) : Fills outer text := by
  generalize same : inner.general mark = target at general
  induction general generalizing inner text with
  | nil =>
    obtain rfl := List.map_eq_nil_iff.mp same
    exact fills_nil.mp filled ▸ .nil
  | literal c general ih =>
    obtain ⟨item, rest, rfl, head, tail⟩ := List.map_eq_cons_iff.mp same
    have literal : item = some c := by
      cases item with
      | none =>
        have marked : mark = c := head
        simp [marked] at plain
      | some d => exact congrArg some head
    subst literal
    cases filled with
    | literal _ filled => exact .literal c (ih (fun member => plain (List.mem_cons_of_mem _ member)) filled tail)
  | run gap general ih =>
    obtain ⟨before, after, rfl, _, tail⟩ := List.map_eq_append_iff.mp same
    obtain ⟨front, back, rfl, _, filled⟩ := filled.split
    exact .run front (ih (fun member => plain (List.mem_cons_of_mem _ member)) filled tail)

theorem fills_general_iff {outer inner : Glob α} (plain : some mark ∉ outer) :
    Fills outer (inner.general mark) ↔ ∀ text, Fills inner text → Fills outer text :=
  ⟨fun general _ filled => general.sound plain filled, fun contained => contained _ (fills_general mark inner)⟩

end General

section Matching

variable [DecidableEq α]

def past (part : List α) : List α → Option (List α)
  | [] => if part = [] then some [] else none
  | c :: text => if part <+: c :: text then some ((c :: text).drop part.length) else past part text

theorem past_some {part text rest : List α} (found : past part text = some rest) : part ++ rest <:+ text := by
  induction text with
  | nil =>
    rw [past] at found
    split at found
    · rename_i empty
      cases found
      simp [empty]
    · cases found
  | cons c text ih =>
    rw [past] at found
    split at found
    · rename_i prefixed
      obtain ⟨after, whole⟩ := prefixed
      rw [← whole, List.drop_left, Option.some.injEq] at found
      rw [← whole, found]
    · exact (ih found).trans (List.suffix_cons c text)

theorem past_leftmost {part rest text : List α} (suffix : part ++ rest <:+ text) :
    ∃ wider, past part text = some wider ∧ rest <:+ wider := by
  induction text with
  | nil =>
    have empty := List.eq_nil_of_suffix_nil suffix
    obtain ⟨rfl, rfl⟩ := List.append_eq_nil_iff.mp empty
    exact ⟨[], rfl, List.suffix_rfl⟩
  | cons c text ih =>
    rw [past]
    split
    · rename_i prefixed
      obtain ⟨after, whole⟩ := prefixed
      rw [← whole, List.drop_left]
      refine ⟨after, rfl, ?_⟩
      rw [← whole] at suffix
      obtain ⟨before, same⟩ := suffix
      have shorter : rest.length ≤ after.length := by
        have lengths := congrArg List.length same
        simp only [List.length_append] at lengths
        omega
      exact List.suffix_of_suffix_length_le
        (((List.suffix_append part rest).trans (List.suffix_append before _)).trans (same ▸ List.suffix_rfl))
        (List.suffix_append part after) shorter
    · rename_i apart
      rcases List.suffix_cons_iff.mp suffix with same | later
      · exact absurd ⟨rest, same⟩ apart
      · exact ih later

def runs (parts : List (List α)) : Glob α := parts.flatMap fun part => none :: part.map some

omit [DecidableEq α] in
theorem fills_parts {parts : List (List α)} {glob : Glob α} {text : List α} :
    Fills (runs parts ++ glob) text ↔ ∃ gaps : List (List α × List α), ∃ tail,
      parts = gaps.map Prod.snd ∧ text = gaps.flatMap (fun gap => gap.1 ++ gap.2) ++ tail ∧ Fills glob tail := by
  induction parts generalizing text with
  | nil =>
    constructor
    · intro filled
      exact ⟨[], text, rfl, rfl, filled⟩
    · rintro ⟨gaps, tail, none_, rfl, filled⟩
      obtain rfl := List.map_eq_nil_iff.mp none_.symm
      exact filled
  | cons part parts ih =>
    have later : runs (part :: parts) ++ glob = none :: (part.map some ++ (runs parts ++ glob)) := by simp [runs]
    rw [later]
    constructor
    · intro filled
      cases filled with
      | run gap filled =>
        obtain ⟨rest, rfl, fit⟩ := fills_literals.mp filled
        obtain ⟨gaps, tail, rfl, rfl, ends⟩ := ih.mp fit
        exact ⟨(gap, part) :: gaps, tail, rfl, by simp, ends⟩
    · rintro ⟨gaps, tail, listed, rfl, ends⟩
      cases gaps with
      | nil => cases listed
      | cons gap gaps =>
        obtain ⟨rfl, others⟩ := List.cons.inj listed
        have fit := ih.mpr ⟨gaps, tail, others, rfl, ends⟩
        rw [List.flatMap_cons, List.append_assoc, List.append_assoc]
        exact .run gap.1 (fills_literals.mpr ⟨_, rfl, fit⟩)

theorem fills_runs {parts : List (List α)} {glob : Glob α} {text : List α} :
    Fills (runs parts ++ none :: glob) text ↔
      ∃ rest, parts.foldlM (fun rest part => past part rest) text = some rest ∧ Fills (none :: glob) rest := by
  induction parts generalizing text with
  | nil => simp [runs]
  | cons part parts ih =>
    have later : runs (part :: parts) ++ none :: glob = none :: (part.map some ++ (runs parts ++ none :: glob)) := by
      simp [runs]
    have opens : ∃ tail, runs parts ++ none :: glob = none :: tail := by
      cases parts with
      | nil => exact ⟨glob, rfl⟩
      | cons next parts => exact ⟨_, rfl⟩
    rw [later, fills_run, List.foldlM_cons]
    constructor
    · rintro ⟨_, suffix, filled⟩
      obtain ⟨rest, rfl, fit⟩ := fills_literals.mp filled
      obtain ⟨wider, found, inner⟩ := past_leftmost suffix
      obtain ⟨tail, shape⟩ := opens
      have widened : Fills (runs parts ++ none :: glob) wider := by
        rw [shape] at fit ⊢
        exact fit.widen inner
      rw [found]
      exact ih.mp widened
    · rintro ⟨rest, walked, filled⟩
      obtain ⟨wider, found, walked⟩ := Option.bind_eq_some_iff.mp walked
      exact ⟨_, past_some found, fills_literals.mpr ⟨wider, rfl, ih.mpr ⟨rest, walked, filled⟩⟩⟩

/-- The text starts with the first part, the middle parts follow leftmost, and the last, if there is one, ends it. -/
def matched (first : List α) (middle : List (List α)) (last : Option (List α)) (text : List α) : Bool :=
  match text.dropPrefix? first with
  | none => false
  | some rest =>
    match middle.foldlM (fun rest part => past part rest) rest with
    | none => false
    | some rest => last.all (·.isSuffixOf rest)

theorem dropPrefix_some {first rest text : List α} : text.dropPrefix? first = some rest ↔ text = first ++ rest := by
  rw [List.dropPrefix?_eq_some_iff]
  simp

theorem fills_walk {first : List α} {middle : List (List α)} {glob : Glob α} {text : List α} :
    Fills (first.map some ++ (runs middle ++ none :: glob)) text ↔
      ∃ rest after, text.dropPrefix? first = some rest ∧
        middle.foldlM (fun rest part => past part rest) rest = some after ∧ Fills (none :: glob) after := by
  rw [fills_literals]
  constructor
  · rintro ⟨rest, rfl, filled⟩
    obtain ⟨after, walked, fit⟩ := fills_runs.mp filled
    exact ⟨rest, after, dropPrefix_some.mpr rfl, walked, fit⟩
  · rintro ⟨rest, after, dropped, walked, fit⟩
    exact ⟨rest, dropPrefix_some.mp dropped, fills_runs.mpr ⟨after, walked, fit⟩⟩

theorem matched_open {first : List α} {middle : List (List α)} {text : List α} :
    matched first middle none text = true ↔ Fills (first.map some ++ (runs middle ++ [none])) text := by
  rw [fills_walk, matched]
  cases dropped : text.dropPrefix? first with
  | none => simp
  | some rest =>
    cases walked : middle.foldlM (fun rest part => past part rest) rest with
    | none => simp [walked]
    | some after => simp [walked, fills_open]

theorem matched_ended {first last : List α} {middle : List (List α)} {text : List α} :
    matched first middle (some last) text = true ↔ Fills (first.map some ++ (runs middle ++ none :: last.map some)) text := by
  rw [fills_walk, matched]
  cases dropped : text.dropPrefix? first with
  | none => simp
  | some rest =>
    cases walked : middle.foldlM (fun rest part => past part rest) rest with
    | none => simp [walked]
    | some after => simp [walked, fills_end]

theorem glob_splitOn (separator : α) (text : List α) :
    ∃ first middle, text.splitOn separator = first :: middle ∧
      first.map some ++ runs middle = text.map fun c => if c = separator then none else some c := by
  induction text with
  | nil => exact ⟨[], [], List.splitOn_nil separator, rfl⟩
  | cons c text ih =>
    obtain ⟨first, middle, cut, same⟩ := ih
    rw [List.splitOn, List.splitOnP_cons_eq_if_modifyHead]
    rw [List.splitOn] at cut
    by_cases separates : c = separator
    · refine ⟨[], first :: middle, by simp [separates, cut], ?_⟩
      simp [separates, runs, ← same]
    · refine ⟨c :: first, middle, by simp [separates, cut], ?_⟩
      simp [separates, ← same]

end Matching

theorem exists_narrowest {β : Type} {within : β → β → Prop} (refl : ∀ a, within a a)
    (trans : ∀ a b c, within a b → within b c → within a c) {all : List β} (some_ : all ≠ []) :
    ∃ a ∈ all, ∀ b ∈ all, within b a → within a b := by
  let _ : Preorder β := { le := within, le_refl := refl, le_trans := trans }
  obtain ⟨a, member, least⟩ := (List.finite_toSet all).exists_minimal (List.exists_mem_of_ne_nil all some_)
  exact ⟨a, member, fun b other inside => least other inside⟩

end CommonMeasure
