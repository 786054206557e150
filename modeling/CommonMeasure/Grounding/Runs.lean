import CommonMeasure.Grounding.Sentences

namespace CommonMeasure.Grounding

open Integrity (Letters Span spanOf)
open Integrity.Fidelity (same_word sharedLength longest_shared_run)

structure Best {α : Type} (measure : α → Nat) (seen : List α) (best : Option (α × Nat)) : Prop where
  none : best = none → ∀ a ∈ seen, measure a = 0
  some : ∀ a n, best = some (a, n) → a ∈ seen ∧ n = measure a ∧ 0 < n ∧ ∀ b ∈ seen, measure b ≤ n

def better {α : Type} (measure : α → Nat) (best : Option (α × Nat)) (a : α) : Option (α × Nat) :=
  if measure a = 0 then best
  else if best.all fun (_, held) => held < measure a then some (a, measure a)
  else best

section

variable {α : Type} {measure : α → Nat}

theorem Best.step {seen : List α} {best : Option (α × Nat)} (is : Best measure seen best) (a : α) :
    Best measure (seen ++ [a]) (better measure best a) := by
  rw [better]
  split
  · rename_i zero
    refine ⟨fun none_ b listed => ?_, fun b n some_ => ?_⟩
    · rcases List.mem_append.mp listed with listed | listed
      · exact is.none none_ b listed
      · rwa [List.mem_singleton.mp listed]
    · obtain ⟨member, same, positive, most⟩ := is.some b n some_
      refine ⟨List.mem_append_left _ member, same, positive, fun c listed => ?_⟩
      rcases List.mem_append.mp listed with listed | listed
      · exact most c listed
      · rw [List.mem_singleton.mp listed]
        omega
  · rename_i positive
    split
    · rename_i beats
      refine ⟨fun none_ => (Option.some_ne_none _ none_).elim, fun b n some_ => ?_⟩
      obtain ⟨rfl, rfl⟩ := Prod.mk.inj (Option.some.inj some_)
      refine ⟨List.mem_append_right _ List.mem_cons_self, rfl, Nat.pos_of_ne_zero positive, fun c listed => ?_⟩
      rcases List.mem_append.mp listed with listed | listed
      · cases held : best with
        | none => exact is.none held c listed ▸ Nat.zero_le _
        | some pair =>
          have less : pair.2 < measure a := by simpa [held] using beats
          have most := (is.some pair.1 pair.2 held).2.2.2 c listed
          omega
      · rw [List.mem_singleton.mp listed]
    · rename_i loses
      refine ⟨fun none_ => (loses (none_ ▸ rfl)).elim, fun b n some_ => ?_⟩
      obtain ⟨member, same, positive, most⟩ := is.some b n some_
      refine ⟨List.mem_append_left _ member, same, positive, fun c listed => ?_⟩
      rcases List.mem_append.mp listed with listed | listed
      · exact most c listed
      · rw [List.mem_singleton.mp listed]
        have more : ¬n < measure a := by simpa [some_] using loses
        omega

theorem Best.fold {seen : List α} {best : Option (α × Nat)} (is : Best measure seen best) (more : List α) :
    Best measure (seen ++ more) (more.foldl (better measure) best) := by
  induction more generalizing seen best with
  | nil => rwa [List.append_nil]
  | cons a more ih =>
    rw [List.append_cons, List.foldl_cons]
    exact ih (is.step a)

theorem best_of (listed : List α) : Best measure listed (listed.foldl (better measure) none) :=
  have nothing : Best measure [] none := ⟨by simp, by simp⟩
  nothing.fold listed

end

def Shares (letters : Letters) (claim part : List Word) (count : Nat) : Prop :=
  ∃ before run after front found back, claim = before ++ run ++ after ∧ part = front ++ found ++ back ∧
    List.Forall₂ (fun word other => same_word letters word.text other.text = true) run found ∧ run.length = count

section

variable {letters : Letters} {claim part : List Word}

theorem shared_alike (as bs : List Word) : ∃ run after found back, as = run ++ after ∧ bs = found ++ back ∧
    List.Forall₂ (fun word other => same_word letters word.text other.text = true) run found ∧
    run.length = sharedLength letters as bs := by
  induction as generalizing bs with
  | nil => exact ⟨[], [], [], bs, rfl, rfl, .nil, by cases bs <;> rfl⟩
  | cons a as ih =>
    cases bs with
    | nil => exact ⟨[], a :: as, [], [], rfl, rfl, .nil, rfl⟩
    | cons b bs =>
      rw [sharedLength]
      split
      · rename_i same
        obtain ⟨run, after, found, back, rfl, rfl, alike, length⟩ := ih bs
        exact ⟨a :: run, after, b :: found, back, rfl, rfl, .cons same alike, by rw [List.length_cons, length]⟩
      · exact ⟨[], a :: as, [], b :: bs, rfl, rfl, .nil, rfl⟩

theorem shared_most {run found : List Word} (after back : List Word)
    (alike : List.Forall₂ (fun word other : Word => same_word letters word.text other.text = true) run found) :
    run.length ≤ sharedLength letters (run ++ after) (found ++ back) := by
  induction alike with
  | nil => exact Nat.zero_le _
  | cons same _ ih =>
    rw [List.cons_append, List.cons_append, sharedLength, if_pos same, List.length_cons]
    omega

def pairs (claim part : List Word) : List (Nat × Nat) :=
  (List.range claim.length).flatMap fun claim_at => (List.range part.length).map (claim_at, ·)

def flat (found : (Nat × Nat) × Nat) : Nat × Nat × Nat := (found.1.1, found.1.2, found.2)

theorem longest_fold : longest_shared_run letters claim part = ((pairs claim part).foldl
    (better fun place => sharedLength letters (claim.drop place.1) (part.drop place.2)) none).map flat := by
  rw [pairs, List.foldl_flatMap]
  simp only [List.foldl_map]
  rw [longest_shared_run]
  show _ = Option.map flat _
  have none_ : Option.map flat none = none := rfl
  conv_lhs => rw [← none_]
  apply List.foldl_hom (Option.map flat)
  intro best claim_at
  apply List.foldl_hom (Option.map flat)
  intro best part_at
  rw [better]
  dsimp only
  by_cases zero : sharedLength letters (claim.drop claim_at) (part.drop part_at) = 0
  · rw [if_pos zero, if_pos zero]
  · rw [if_neg zero, if_neg zero]
    cases best with
    | none => rfl
    | some held =>
      by_cases beats : held.2 < sharedLength letters (claim.drop claim_at) (part.drop part_at)
      · rw [if_pos (by simpa [flat] using beats), if_pos (by simpa using beats)]
        rfl
      · rw [if_neg (by simpa [flat] using beats), if_neg (by simpa using beats)]

theorem mem_pairs {place : Nat × Nat} : place ∈ pairs claim part ↔ place.1 < claim.length ∧ place.2 < part.length := by
  obtain ⟨claim_at, part_at⟩ := place
  simp [pairs]

theorem shares_place {count : Nat} (shares : Shares letters claim part count) (some_ : 0 < count) :
    ∃ place ∈ pairs claim part, count ≤ sharedLength letters (claim.drop place.1) (part.drop place.2) := by
  obtain ⟨before, run, after, front, found, back, rfl, rfl, alike, rfl⟩ := shares
  have length := alike.length_eq
  refine ⟨(before.length, front.length), mem_pairs.mpr ⟨?_, ?_⟩, ?_⟩
  · simp only [List.length_append]
    omega
  · simp only [List.length_append]
    omega
  · dsimp only
    rw [List.append_assoc, List.append_assoc, List.drop_left, List.drop_left]
    exact shared_most after back alike

theorem longest_none (none_ : longest_shared_run letters claim part = none) {count : Nat}
    (shares : Shares letters claim part count) : count = 0 := by
  by_contra some_
  obtain ⟨place, listed, long⟩ := shares_place shares (Nat.pos_of_ne_zero some_)
  rw [longest_fold, Option.map_eq_none_iff] at none_
  have zero := (best_of (pairs claim part)).none none_ place listed
  omega

theorem longest_some {claim_at part_at length : Nat}
    (found : longest_shared_run letters claim part = some (claim_at, part_at, length)) :
    (0 < length ∧ ∃ before run after front other back, claim = before ++ run ++ after ∧ part = front ++ other ++ back ∧
      List.Forall₂ (fun word other => same_word letters word.text other.text = true) run other ∧
      before.length = claim_at ∧ front.length = part_at ∧ run.length = length) ∧
    ∀ count, Shares letters claim part count → count ≤ length := by
  rw [longest_fold, Option.map_eq_some_iff] at found
  obtain ⟨⟨place, n⟩, is, parts⟩ := found
  obtain ⟨rfl, rest⟩ := Prod.mk.inj parts
  obtain ⟨rfl, rfl⟩ := Prod.mk.inj rest
  obtain ⟨listed, same, positive, most⟩ := (best_of (pairs claim part)).some place n is
  obtain ⟨in_claim, in_part⟩ := mem_pairs.mp listed
  refine ⟨⟨positive, ?_⟩, ?_⟩
  · obtain ⟨run, after, other, back, one, two, alike, count⟩ :=
      @shared_alike letters (claim.drop place.1) (part.drop place.2)
    refine ⟨claim.take place.1, run, after, part.take place.2, other, back, ?_, ?_, alike, ?_, ?_, count.trans same.symm⟩
    · rw [List.append_assoc, ← one, List.take_append_drop]
    · rw [List.append_assoc, ← two, List.take_append_drop]
    · rw [List.length_take, Nat.min_eq_left (Nat.le_of_lt in_claim)]
    · rw [List.length_take, Nat.min_eq_left (Nat.le_of_lt in_part)]
  · intro count shares
    by_cases zero : count = 0
    · omega
    · obtain ⟨other, also, long⟩ := shares_place shares (Nat.pos_of_ne_zero zero)
      have top := most other also
      omega

theorem spanOf_stretch (before after : List Word) {run : List Word} (some_ : run ≠ []) :
    spanOf (before ++ run ++ after) before.length (before.length + run.length) = stretch run := by
  have long := List.length_pos_of_ne_nil some_
  have first : (before ++ run ++ after)[before.length]? = run.head? := by
    rw [List.append_assoc, List.getElem?_append_right (Nat.le_refl _), Nat.sub_self, ← List.head?_eq_getElem?,
      List.head?_append_of_ne_nil _ some_]
  have last : (before ++ run ++ after)[before.length + run.length - 1]? = run.getLast? := by
    rw [List.append_assoc, List.getElem?_append_right (by omega), List.getElem?_append_left (by omega),
      List.getLast?_eq_getElem?]
    congr 1
    omega
  rw [spanOf, first, last, stretch]

end

end CommonMeasure.Grounding
