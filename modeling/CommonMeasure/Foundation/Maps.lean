import Mathlib.Data.List.AList
import Mathlib.Data.Set.Basic

/-!
# Maps that only learn

A key is held with the values it was given, and a key with the least position it was given.
-/

namespace CommonMeasure

variable {κ ν : Type*} [DecidableEq κ]

def insertNew (known : List κ) (value : κ) : List κ × Bool :=
  if value ∈ known then (known, false) else (known ++ [value], true)

theorem mem_insertNew {known : List κ} {value other : κ} : other ∈ (insertNew known value).1 ↔ other ∈ known ∨
    other = value := by
  unfold insertNew
  split
  · rename_i listed
    refine ⟨Or.inl, ?_⟩
    rintro (member | rfl)
    · exact member
    · exact listed
  · simp

theorem insertNew_old {known : List κ} {value : κ} (old : (insertNew known value).2 = false) : value ∈ known := by
  unfold insertNew at old
  split at old
  · assumption
  · cases old

section

variable [DecidableEq ν]

def addValue (known : List ν) : Option ν → List ν × Bool
  | some value => insertNew known value
  | none => (known, false)

def addTo (known : AList fun _ : κ => List ν) (key : κ) (value : Option ν) : (AList fun _ : κ => List ν) × Bool :=
  let added := addValue ((known.lookup key).getD []) value
  (known.insert key added.1, added.2 || (known.lookup key).isNone)

def HasValue (known : AList fun _ : κ => List ν) (key : κ) (value : ν) : Prop := ∃ values ∈ known.lookup key, value ∈ values

theorem mem_addValue {known : List ν} {value : Option ν} {other : ν} :
    other ∈ (addValue known value).1 ↔ other ∈ known ∨ value = some other := by
  cases value with
  | none => simp [addValue]
  | some value =>
    rw [Option.some_inj, eq_comm]
    exact mem_insertNew

theorem addValue_old {known : List ν} {value : Option ν} (old : (addValue known value).2 = false) :
    ∀ other, value = some other → other ∈ known := by
  rintro other rfl
  exact insertNew_old old

theorem mem_addTo {known : AList fun _ : κ => List ν} {key other : κ} {value : Option ν} :
    other ∈ (addTo known key value).1 ↔ other = key ∨ other ∈ known := AList.mem_insert known

theorem hasValue_addTo {known : AList fun _ : κ => List ν} {key other : κ} {value : Option ν} {held : ν} :
    HasValue (addTo known key value).1 other held ↔ HasValue known other held ∨ other = key ∧ value = some held := by
  unfold HasValue addTo
  by_cases same : other = key
  · subst same
    rw [AList.lookup_insert]
    cases before : known.lookup other with
    | none => simp [mem_addValue]
    | some values => simp [mem_addValue]
  · rw [AList.lookup_insert_ne same]
    simp [same]

theorem addTo_old {known : AList fun _ : κ => List ν} {key : κ} {value : Option ν} (old : (addTo known key value).2 = false) :
    key ∈ known ∧ ∀ held, value = some held → HasValue known key held := by
  unfold addTo at old
  obtain ⟨added, present⟩ := Bool.or_eq_false_iff.mp old
  cases before : known.lookup key with
  | none =>
    rw [before] at present
    cases present
  | some values =>
    refine ⟨AList.lookup_isSome.mp (by rw [before]; rfl), fun held given => ⟨values, before, ?_⟩⟩
    rw [before] at added
    exact addValue_old added held given

end

def earliest (known : AList fun _ : κ => Nat) (key : Option κ) (at_ : Nat) : (AList fun _ : κ => Nat) × Bool :=
  match key with
  | none => (known, false)
  | some key =>
    if (known.lookup key).any (· ≤ at_) then (known, false) else (known.insert key at_, true)

def HasBy (known : AList fun _ : κ => Nat) (key : κ) (at_ : Nat) : Prop := ∃ first ∈ known.lookup key, first ≤ at_

theorem hasBy_earliest {known : AList fun _ : κ => Nat} {key : Option κ} {at_ : Nat} {other : κ} {by_ : Nat} :
    HasBy (earliest known key at_).1 other by_ ↔ HasBy known other by_ ∨ key = some other ∧ at_ ≤ by_ := by
  cases key with
  | none => simp [earliest]
  | some key =>
    unfold earliest
    dsimp only
    split
    · rename_i before
      obtain ⟨first, found, earlier⟩ := (Option.any_eq_true _ _).mp before
      refine ⟨Or.inl, ?_⟩
      rintro (has | ⟨same, later⟩)
      · exact has
      · exact ⟨first, Option.some.inj same ▸ found, (of_decide_eq_true earlier).trans later⟩
    · rename_i later
      unfold HasBy
      by_cases same : other = key
      · subst same
        rw [AList.lookup_insert]
        constructor
        · rintro ⟨first, found, le⟩
          exact Or.inr ⟨rfl, Option.some.inj found ▸ le⟩
        · rintro (⟨first, found, le⟩ | ⟨_, le⟩)
          · refine ⟨at_, rfl, ?_⟩
            have after : ¬first ≤ at_ := fun before => later ((Option.any_eq_true _ _).mpr ⟨first, found, decide_eq_true before⟩)
            omega
          · exact ⟨at_, rfl, le⟩
      · rw [AList.lookup_insert_ne same]
        refine ⟨Or.inl, ?_⟩
        rintro (has | ⟨is, _⟩)
        · exact has
        · exact absurd (Option.some.inj is).symm same

theorem lookup_earliest {known : AList fun _ : κ => Nat} {key : Option κ} {at_ : Nat} {other : κ} {first : Nat}
    (found : (earliest known key at_).1.lookup other = some first) : known.lookup other = some first ∨ first = at_ := by
  cases key with
  | none => exact Or.inl found
  | some key =>
    unfold earliest at found
    dsimp only at found
    split at found
    · exact Or.inl found
    · by_cases same : other = key
      · rw [same, AList.lookup_insert] at found
        exact Or.inr (Option.some.inj found).symm
      · rw [AList.lookup_insert_ne same] at found
        exact Or.inl found

theorem earliest_old {known : AList fun _ : κ => Nat} {key : Option κ} {at_ : Nat} (old : (earliest known key at_).2 = false) :
    ∀ held, key = some held → HasBy known held at_ := by
  rintro held rfl
  unfold earliest at old
  dsimp only at old
  split at old
  · rename_i before
    obtain ⟨first, found, earlier⟩ := (Option.any_eq_true _ _).mp before
    exact ⟨first, found, of_decide_eq_true earlier⟩
  · cases old

end CommonMeasure
