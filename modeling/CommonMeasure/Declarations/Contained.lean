import CommonMeasure.Declarations.Rsl
import CommonMeasure.Declarations.Spellings

/-!
# What the test of two scopes decides

`Scope::within` is containment of the targets in the matching form, where the outer scope lacks a character that such a target
can carry.
-/

namespace CommonMeasure.Declarations

def Contains (outer inner : Text) : Prop :=
  ∀ target, matching_target target = target → matches_form inner target = true → matches_form outer target = true

theorem formed_literal {pattern part : Text} (listed : part ∈ literals pattern) : Formed part := by
  obtain ⟨written, _, rfl⟩ := List.mem_map.mp listed
  exact matching_target_formed written

theorem carried_formed {c : Char} (carried : matching_target [c] = [c]) : Formed [c] := carried ▸ matching_target_formed [c]

theorem general_formed (pattern : Text) {c : Char} (carried : matching_target [c] = [c]) :
    Formed ((glob (matching_pattern pattern)).general c) := by
  obtain ⟨first, rest, parts, form⟩ := glob_form pattern
  have literal : ∀ part ∈ first :: rest, Formed part := fun part listed => formed_literal (parts ▸ listed)
  have written (part : Text) : Glob.general c (part.map some) = part := by
    rw [Glob.general, List.map_map]
    exact List.map_id part
  have later (rest : List Text) (literal : ∀ part ∈ rest, Formed part) : Formed (Glob.general c (runs rest)) := by
    induction rest with
    | nil => exact .nil
    | cons part rest ih =>
      have cut : Glob.general c (runs (part :: rest)) = [c] ++ (part ++ Glob.general c (runs rest)) := by
        conv => rhs; rw [← written part]
        simp [runs, Glob.general]
      rw [cut]
      exact (carried_formed carried).append ((literal part List.mem_cons_self).append
        (ih fun other listed => literal other (List.mem_cons_of_mem _ listed)))
  have cut : (glob (matching_pattern pattern)).general c =
      first ++ (Glob.general c (runs rest) ++ Glob.general c (if anchored pattern then [] else [none])) := by
    rw [form]
    conv => rhs; rw [← written first]
    simp [Glob.general]
  rw [cut]
  refine (literal first List.mem_cons_self).append ((later rest fun part listed =>
    literal part (List.mem_cons_of_mem _ listed)).append ?_)
  split
  · exact .nil
  · exact carried_formed carried

theorem glob_lacks {pattern : Text} {c : Char} (lacks : ∀ part ∈ literals pattern, c ∉ part) :
    some c ∉ glob (matching_pattern pattern) := by
  obtain ⟨first, rest, parts, form⟩ := glob_form pattern
  have mem_some {part : Text} : some c ∈ part.map some ↔ c ∈ part := by simp
  rw [parts] at lacks
  rw [form]
  intro member
  rcases List.mem_append.mp member with inside | later
  · exact lacks first List.mem_cons_self (mem_some.mp inside)
  · rcases List.mem_append.mp later with inside | ends
    · obtain ⟨part, listed, inside⟩ := List.mem_flatMap.mp inside
      rcases List.mem_cons.mp inside with none_ | inside
      · cases none_
      · exact lacks part (List.mem_cons_of_mem _ listed) (mem_some.mp inside)
    · split at ends
      · cases ends
      · simp at ends

/-- The test is containment of targets: it holds only where one scope contains the other, and where the outer scope lacks a
character that a target can carry it holds wherever it does. -/
theorem within_contains (inner outer : Text) :
    ((Scope.new (matching_pattern inner)).within (Scope.new (matching_pattern outer)) = true →
      Contains (matching_pattern outer) (matching_pattern inner)) ∧
    ∀ c, matching_target [c] = [c] → (∀ part ∈ literals outer, c ∉ part) →
      Contains (matching_pattern outer) (matching_pattern inner) →
        (Scope.new (matching_pattern inner)).within (Scope.new (matching_pattern outer)) = true := by
  constructor
  · intro within target _
    exact (within_iff (matching_pattern_plain outer)).mp within target
  · intro c carried lacks contains
    have general : Fills (glob (matching_pattern outer)) ((glob (matching_pattern inner)).general c) := by
      apply matches_form_iff.mp
      apply contains _ (general_formed inner carried).fixed
      exact matches_form_iff.mpr (fills_general c _)
    have sound {text : Text} (filled : Fills (glob (matching_pattern inner)) text) : Fills (glob (matching_pattern outer)) text :=
      Fills.sound (glob_lacks lacks) general filled
    exact within_eq.mpr (sound (fills_general ANY_RUN _))

end CommonMeasure.Declarations
