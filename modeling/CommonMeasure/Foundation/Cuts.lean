import Mathlib.Data.List.Basic
import Mathlib.Data.List.Forall2
import Mathlib.Data.List.Perm.Basic

/-!
# Lists cut and shuffled

A text is cut after each separator into its segments.
-/

namespace CommonMeasure

variable {α : Type} [DecidableEq α]

/-- `str::split_inclusive`. -/
def splitInclusive (separator : α) : List α → List (List α)
  | [] => []
  | c :: text =>
    if c = separator then [c] :: splitInclusive separator text
    else match splitInclusive separator text with
      | [] => [[c]]
      | segment :: more => (c :: segment) :: more

inductive Cut (separator : α) : List (List α) → Prop
  | nil : Cut separator []
  | last (body : List α) : body ≠ [] → separator ∉ body → Cut separator [body]
  | cons (body : List α) {more : List (List α)} : separator ∉ body → Cut separator more →
      Cut separator ((body ++ [separator]) :: more)

variable {separator : α}

theorem splitInclusive_cut (text : List α) : Cut separator (splitInclusive separator text) := by
  induction text with
  | nil => exact .nil
  | cons c text ih =>
    rw [splitInclusive]
    split
    · rename_i separates
      rw [separates]
      exact .cons [] (by simp) ih
    · rename_i apart
      generalize splitInclusive separator text = cut at ih
      cases ih with
      | nil => exact .last [c] (by simp) (by simpa using Ne.symm apart)
      | last body some_ plain => exact .last (c :: body) (by simp) (by simp [plain, Ne.symm apart])
      | cons body plain rest => exact .cons (c :: body) (by simp [plain, Ne.symm apart]) rest

theorem splitInclusive_body {body text : List α} (plain : separator ∉ body) :
    splitInclusive separator (body ++ separator :: text) = (body ++ [separator]) :: splitInclusive separator text := by
  induction body with
  | nil => simp [splitInclusive]
  | cons c body ih =>
    simp only [List.mem_cons, not_or] at plain
    rw [List.cons_append, splitInclusive, if_neg (Ne.symm plain.1), ih plain.2]
    rfl

theorem splitInclusive_plain {body : List α} (some_ : body ≠ []) (plain : separator ∉ body) :
    splitInclusive separator body = [body] := by
  induction body with
  | nil => exact (some_ rfl).elim
  | cons c body ih =>
    simp only [List.mem_cons, not_or] at plain
    rw [splitInclusive, if_neg (Ne.symm plain.1)]
    by_cases empty : body = []
    · simp [empty, splitInclusive]
    · rw [ih empty plain.2]

theorem cut_flatten {segments : List (List α)} (cut : Cut separator segments) :
    splitInclusive separator segments.flatten = segments := by
  induction cut with
  | nil => rfl
  | last body some_ plain => simpa using splitInclusive_plain some_ plain
  | cons body plain rest ih =>
    rw [List.flatten_cons, List.append_assoc, List.singleton_append, splitInclusive_body plain, ih]

omit [DecidableEq α] in
theorem Cut.erase {segments : List (List α)} (cut : Cut separator segments) (i : Nat) :
    Cut separator (segments.eraseIdx i) := by
  induction cut generalizing i with
  | nil => exact .nil
  | last body some_ plain =>
    cases i with
    | zero => exact .nil
    | succ i => exact .last body some_ plain
  | cons body plain rest ih =>
    cases i with
    | zero => exact rest
    | succ i => exact .cons body plain (ih i)


end CommonMeasure

namespace CommonMeasure

variable {α β γ δ : Type*} {r : α → β → Prop} {s : γ → δ → Prop} {l : List α} {m : List β}

def Shuffles (r : α → β → Prop) (l : List α) (m : List β) : Prop := ∃ middle, l.Perm middle ∧ List.Forall₂ r middle m

namespace Shuffles

theorem filterMap {f : α → Option γ} {g : β → Option δ} (related : ∀ a b, r a b → Option.Rel s (f a) (g b))
    (shuffles : Shuffles r l m) : Shuffles s (l.filterMap f) (m.filterMap g) := by
  obtain ⟨middle, perm, each⟩ := shuffles
  refine ⟨middle.filterMap f, perm.filterMap f, ?_⟩
  clear perm
  induction each with
  | nil => exact List.Forall₂.nil
  | @cons a b middle m first _ ih =>
    rw [List.filterMap_cons, List.filterMap_cons]
    cases fa : f a with
    | none =>
      cases gb : g b with
      | none => exact ih
      | some d =>
        have apart := related a b first
        rw [fa, gb] at apart
        cases apart
    | some c =>
      cases gb : g b with
      | none =>
        have apart := related a b first
        rw [fa, gb] at apart
        cases apart
      | some d =>
        have same := related a b first
        rw [fa, gb] at same
        cases same with
        | some is => exact List.Forall₂.cons is ih

theorem map {f : α → γ} {g : β → δ} (related : ∀ a b, r a b → s (f a) (g b)) (shuffles : Shuffles r l m) :
    Shuffles s (l.map f) (m.map g) := by
  obtain ⟨middle, perm, each⟩ := shuffles
  refine ⟨middle.map f, perm.map f, ?_⟩
  rw [List.forall₂_map_left_iff, List.forall₂_map_right_iff]
  exact each.imp related

theorem filter {p : α → Bool} {q : β → Bool} (same : ∀ a b, r a b → p a = q b) (shuffles : Shuffles r l m) :
    Shuffles r (l.filter p) (m.filter q) := by
  rw [← List.filterMap_eq_filter, ← List.filterMap_eq_filter]
  apply shuffles.filterMap
  intro a b related
  rw [Option.guard, Option.guard, same a b related]
  split
  · exact Option.Rel.some related
  · exact Option.Rel.none

theorem perm {l m : List α} (shuffles : Shuffles (· = ·) l m) : l.Perm m := by
  obtain ⟨middle, perm, each⟩ := shuffles
  rw [List.forall₂_eq_eq_eq] at each
  exact each ▸ perm

theorem flatMap {f : α → List γ} {g : β → List γ} (related : ∀ a b, r a b → (f a).Perm (g b)) (shuffles : Shuffles r l m) :
    (l.flatMap f).Perm (m.flatMap g) := by
  obtain ⟨middle, perm, each⟩ := shuffles
  refine (perm.flatMap_right f).trans ?_
  clear perm
  induction each with
  | nil => exact List.Perm.nil
  | cons first _ ih => exact (related _ _ first).append ih

theorem any {p : α → Bool} {q : β → Bool} (same : ∀ a b, r a b → p a = q b) (shuffles : Shuffles r l m) :
    l.any p = m.any q := by
  obtain ⟨middle, perm, each⟩ := shuffles
  rw [perm.any_eq]
  clear perm
  induction each with
  | nil => rfl
  | cons first _ ih => rw [List.any_cons, List.any_cons, same _ _ first, ih]

theorem length (shuffles : Shuffles r l m) : l.length = m.length := by
  obtain ⟨middle, perm, each⟩ := shuffles
  rw [perm.length_eq, each.length_eq]

end Shuffles

end CommonMeasure
