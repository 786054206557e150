import CommonMeasure.Json.Text

namespace CommonMeasure.Json

def setMember (members : List (String × Value)) (name : String) (value : Value) : List (String × Value) :=
  if name ∈ members.map Prod.fst then members.map fun member => if member.1 = name then (name, value) else member
  else members ++ [(name, value)]

def swapRemove (name : String) : List (String × Value) → List (String × Value)
  | [] => []
  | member :: rest =>
    if member.1 = name then
      match rest.getLast? with
      | some last => last :: rest.dropLast
      | none => []
    else member :: swapRemove name rest

def membersOf : Value → List (String × Value)
  | .object members => members
  | _ => []

section

variable {members : List (String × Value)} {name other : String} {value : Value}

theorem get_of_mem (named : (members.map Prod.fst).Nodup) (listed : (name, value) ∈ members) :
    (Value.object members).get name = value := by
  have found : (members.reverse.find? fun member => member.1 = name).isSome := by
    rw [List.find?_isSome]
    exact ⟨(name, value), List.mem_reverse.mpr listed, by simp⟩
  obtain ⟨⟨same, held⟩, is⟩ := Option.isSome_iff_exists.mp found
  have named' := List.find?_some is
  have member := List.mem_reverse.mp (List.mem_of_find?_eq_some is)
  obtain rfl : same = name := by simpa using named'
  have once := List.inj_on_of_nodup_map named member listed rfl
  change ((members.reverse.find? fun member => member.1 = same).map Prod.snd).getD .null = value
  rw [is]
  exact congrArg Prod.snd once

theorem get_of_not_mem (absent : name ∉ members.map Prod.fst) : (Value.object members).get name = .null := by
  change ((members.reverse.find? fun member => member.1 = name).map Prod.snd).getD .null = .null
  rw [List.find?_eq_none.mpr, Option.map_none, Option.getD_none]
  intro member listed is
  exact absent (List.mem_map.mpr ⟨member, List.mem_reverse.mp listed, by simpa using is⟩)

theorem get_congr {more : List (String × Value)} (named : (members.map Prod.fst).Nodup) (also : (more.map Prod.fst).Nodup)
    (same : ∀ value, (name, value) ∈ members ↔ (name, value) ∈ more) :
    (Value.object members).get name = (Value.object more).get name := by
  by_cases held : name ∈ members.map Prod.fst
  · obtain ⟨⟨_, value⟩, listed, rfl⟩ := List.mem_map.mp held
    rw [get_of_mem named listed, get_of_mem also ((same value).mp listed)]
  · have missing : name ∉ more.map Prod.fst := by
      intro held'
      obtain ⟨⟨_, value⟩, listed, rfl⟩ := List.mem_map.mp held'
      exact held (List.mem_map.mpr ⟨_, (same value).mpr listed, rfl⟩)
    rw [get_of_not_mem held, get_of_not_mem missing]

theorem names_setMember : (setMember members name value).map Prod.fst =
    if name ∈ members.map Prod.fst then members.map Prod.fst else members.map Prod.fst ++ [name] := by
  unfold setMember
  split
  · rw [List.map_map]
    apply List.map_congr_left
    intro member _
    by_cases same : member.1 = name
    · simp [same]
    · simp [same]
  · simp

theorem nodup_setMember (named : (members.map Prod.fst).Nodup) : ((setMember members name value).map Prod.fst).Nodup := by
  rw [names_setMember]
  split
  · exact named
  · rename_i absent
    rw [List.nodup_append]
    exact ⟨named, List.nodup_singleton _, by
      rintro other listed _ is rfl
      exact absent (List.mem_singleton.mp is ▸ listed)⟩

theorem mem_setMember {member : String × Value} :
    member ∈ setMember members name value ↔ member = (name, value) ∨ member ∈ members ∧ member.1 ≠ name := by
  unfold setMember
  split
  · rename_i held
    rw [List.mem_map]
    constructor
    · rintro ⟨before, listed, rfl⟩
      split
      · exact Or.inl rfl
      · rename_i different
        exact Or.inr ⟨listed, different⟩
    · rintro (rfl | ⟨listed, different⟩)
      · obtain ⟨before, listed, same⟩ := List.mem_map.mp held
        exact ⟨before, listed, if_pos same⟩
      · exact ⟨member, listed, if_neg different⟩
  · rename_i absent
    rw [List.mem_append, List.mem_singleton, or_comm]
    apply or_congr_right
    exact ⟨fun listed => ⟨listed, fun same => absent (List.mem_map.mpr ⟨member, listed, same⟩)⟩, And.left⟩

theorem get_setMember (named : (members.map Prod.fst).Nodup) :
    (Value.object (setMember members name value)).get name = value :=
  get_of_mem (nodup_setMember named) (mem_setMember.mpr (Or.inl rfl))

theorem get_setMember_ne (named : (members.map Prod.fst).Nodup) (different : other ≠ name) :
    (Value.object (setMember members name value)).get other = (Value.object members).get other := by
  apply get_congr (nodup_setMember named) named
  intro held
  rw [mem_setMember]
  constructor
  · rintro (same | ⟨listed, _⟩)
    · exact absurd (congrArg Prod.fst same) different
    · exact listed
  · intro listed
    exact Or.inr ⟨listed, different⟩

theorem perm_swapRemove (named : (members.map Prod.fst).Nodup) :
    (swapRemove name members).Perm (members.filter fun member => member.1 ≠ name) := by
  induction members with
  | nil => exact List.Perm.refl _
  | cons member rest ih =>
    obtain ⟨absent, named⟩ := List.nodup_cons.mp named
    unfold swapRemove
    split
    · rename_i same
      have kept : rest.filter (fun member => member.1 ≠ name) = rest := by
        rw [List.filter_eq_self]
        intro other listed
        have different : other.1 ≠ name := fun is => absent (List.mem_map.mpr ⟨other, listed, is.trans same.symm⟩)
        simpa using different
      rw [List.filter_cons_of_neg (by simp [same]), kept]
      cases last : rest.getLast? with
      | none =>
        rw [List.getLast?_eq_none_iff.mp last]
      | some tail =>
        obtain ⟨front, rfl⟩ := List.getLast?_eq_some_iff.mp last
        rw [List.dropLast_concat]
        exact (List.perm_append_singleton tail front).symm
    · rename_i different
      rw [List.filter_cons_of_pos (by simpa using different)]
      exact (ih named).cons member

theorem mem_swapRemove (named : (members.map Prod.fst).Nodup) {member : String × Value} :
    member ∈ swapRemove name members ↔ member ∈ members ∧ member.1 ≠ name := by
  rw [(perm_swapRemove named).mem_iff, List.mem_filter]
  simp

theorem nodup_swapRemove (named : (members.map Prod.fst).Nodup) : ((swapRemove name members).map Prod.fst).Nodup := by
  rw [((perm_swapRemove named).map Prod.fst).nodup_iff]
  exact named.sublist (List.filter_sublist.map Prod.fst)

theorem get_swapRemove_ne (named : (members.map Prod.fst).Nodup) (different : other ≠ name) :
    (Value.object (swapRemove name members)).get other = (Value.object members).get other := by
  apply get_congr (nodup_swapRemove named) named
  intro held
  rw [mem_swapRemove named]
  exact and_iff_left different

structure Formed (J : Reader) (members : List (String × Value)) : Prop where
  named : (members.map Prod.fst).Nodup
  held : ∀ member ∈ members, J.Holds member.2

variable {J : Reader}

theorem Formed.holds (formed : Formed J members) : J.Holds (.object members) :=
  J.holds_object members formed.named formed.held

theorem Formed.set (formed : Formed J members) (holds : J.Holds value) : Formed J (setMember members name value) where
  named := nodup_setMember formed.named
  held := by
    intro member listed
    rcases mem_setMember.mp listed with rfl | ⟨before, _⟩
    · exact holds
    · exact formed.held member before

theorem Formed.remove (formed : Formed J members) : Formed J (swapRemove name members) where
  named := nodup_swapRemove formed.named
  held member listed := formed.held member ((mem_swapRemove formed.named).mp listed).1

theorem depthMembers_le_iff {depth : Nat} : depthMembers members ≤ depth ↔ ∀ member ∈ members, member.2.depth ≤ depth := by
  induction members with
  | nil => simp [depthMembers]
  | cons member rest ih =>
    obtain ⟨name, value⟩ := member
    simp [depthMembers, ih]

end

end CommonMeasure.Json
