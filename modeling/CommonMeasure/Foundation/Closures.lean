import Mathlib.Data.List.Nodup
import Mathlib.Data.List.Perm.Subperm

/-!
# What operations reach

The closure of a start under some operations, and a worklist that computes it: `Worklist.complete` says that a list whose every
item has been worked holds exactly what is reached.
-/

namespace CommonMeasure

variable {α : Type*}

inductive Reached (operations : List (α → α)) (start : α) : α → Prop
  | start : Reached operations start start
  | step {a : α} {operation : α → α} : Reached operations start a → operation ∈ operations →
      Reached operations start (operation a)

def ReachesMore (operations : List (α → α)) (start : α) (count : Nat) : Prop :=
  ∃ found : List α, found.Nodup ∧ count < found.length ∧ ∀ a ∈ found, Reached operations start a

/-- What has been found so far, the first `done` of it worked. -/
structure Worklist (operations : List (α → α)) (start : α) (done : Nat) (found : List α) : Prop where
  first : found.head? = some start
  nodup : found.Nodup
  sound : ∀ a ∈ found, Reached operations start a
  worked : ∀ a ∈ found.take done, ∀ operation ∈ operations, operation a ∈ found

section

variable {operations : List (α → α)} {start : α} {done : Nat} {found more : List α}

theorem Reached.trans {a b : α} (first : Reached operations start a) (second : Reached operations a b) :
    Reached operations start b := by
  induction second with
  | start => exact first
  | step _ member ih => exact ih.step member

theorem Reached.lift {β : Type*} {others : List (β → β)} {f : α → β} {good : α → Prop}
    (carries : ∀ other ∈ others, ∀ a, good a → ∃ operation ∈ operations, good (operation a) ∧ f (operation a) = other (f a))
    (startGood : good start) {b : β} (reached : Reached others (f start) b) :
    ∃ a, Reached operations start a ∧ good a ∧ f a = b := by
  induction reached with
  | start => exact ⟨start, .start, startGood, rfl⟩
  | step _ member ih =>
    obtain ⟨a, from_, isGood, rfl⟩ := ih
    obtain ⟨operation, listed, kept, same⟩ := carries _ member a isGood
    exact ⟨operation a, from_.step listed, kept, same⟩

theorem ReachesMore.lift {β : Type*} {others : List (β → β)} {f : α → β} {count : Nat}
    (lifts : ∀ b, Reached others (f start) b → ∃ a, Reached operations start a ∧ f a = b)
    (more : ReachesMore others (f start) count) : ReachesMore operations start count := by
  obtain ⟨found, nodup, many, reached⟩ := more
  have inhabited : Nonempty α := ⟨start⟩
  choose! back from_ image using lifts
  have whole : (found.map back).map f = found := by
    rw [List.map_map]
    exact (List.map_congr_left fun b member => image b (reached b member)).trans (List.map_id found)
  refine ⟨found.map back, List.Nodup.of_map f (whole.symm ▸ nodup), by simpa using many, ?_⟩
  intro a member
  obtain ⟨b, listed, rfl⟩ := List.mem_map.mp member
  exact from_ b (reached b listed)

theorem ReachesMore.trans {a : α} {count : Nat} (first : Reached operations start a) (more : ReachesMore operations a count) :
    ReachesMore operations start count := by
  obtain ⟨found, nodup, many, reached⟩ := more
  exact ⟨found, nodup, many, fun b member => first.trans (reached b member)⟩

theorem Worklist.begin (operations : List (α → α)) (start : α) : Worklist operations start 0 [start] where
  first := rfl
  nodup := by simp
  sound := by
    intro a member
    rw [List.mem_singleton.mp member]
    exact .start
  worked := by simp

theorem Worklist.work {current : α} (list : Worklist operations start done found) (next : found[done]? = some current)
    (nodup : (found ++ more).Nodup) (new : ∀ a ∈ more, ∃ operation ∈ operations, a = operation current)
    (all : ∀ operation ∈ operations, operation current ∈ found ++ more) :
    Worklist operations start (done + 1) (found ++ more) where
  first := by
    rw [List.head?_append, list.first]
    rfl
  nodup := nodup
  sound := by
    intro a member
    rcases List.mem_append.mp member with old | added
    · exact list.sound a old
    · obtain ⟨operation, listed, rfl⟩ := new a added
      exact (list.sound current (List.mem_of_getElem? next)).step listed
  worked := by
    have within : done < found.length := (List.getElem?_eq_some_iff.mp next).1
    intro a member operation listed
    rw [List.take_append_of_le_length within, List.take_add_one, next] at member
    rcases List.mem_append.mp member with old | last
    · exact List.mem_append_left _ (list.worked a old operation listed)
    · simp only [Option.toList_some, List.mem_singleton] at last
      exact last ▸ all operation listed

theorem Worklist.complete (list : Worklist operations start done found) (finished : found.length ≤ done) {a : α} :
    a ∈ found ↔ Reached operations start a := by
  constructor
  · exact list.sound a
  · intro reached
    induction reached with
    | start => exact List.mem_of_mem_head? list.first
    | step _ listed ih =>
      have worked := list.worked
      rw [List.take_of_length_le finished] at worked
      exact worked _ ih _ listed

theorem Worklist.count (list : Worklist operations start done found) (finished : found.length ≤ done) {count : Nat} :
    ReachesMore operations start count ↔ count < found.length := by
  constructor
  · rintro ⟨others, nodup, many, reached⟩
    have fewer : others.length ≤ found.length :=
      (List.subperm_of_subset nodup fun a member => (list.complete finished).mpr (reached a member)).length_le
    omega
  · intro many
    exact ⟨found, list.nodup, many, list.sound⟩

end

end CommonMeasure
