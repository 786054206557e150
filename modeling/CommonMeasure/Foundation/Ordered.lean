import Mathlib

/-!
# Maps in the order of their keys
-/

namespace CommonMeasure

variable {κ ν : Type*} [LinearOrder κ]

def put (key : κ) (value : ν) : List (κ × ν) → List (κ × ν)
  | [] => [(key, value)]
  | entry :: rest =>
    if key < entry.1 then (key, value) :: entry :: rest
    else if key = entry.1 then (key, value) :: rest
    else entry :: put key value rest

def Ordered (map : List (κ × ν)) : Prop := map.Pairwise fun a b => a.1 < b.1

theorem mem_put {key : κ} {value : ν} {map : List (κ × ν)} (ordered : Ordered map) {entry : κ × ν} :
    entry ∈ put key value map ↔ entry = (key, value) ∨ entry ∈ map ∧ entry.1 ≠ key := by
  induction map with
  | nil => simp [put]
  | cons first rest ih =>
    obtain ⟨least, ordered⟩ := List.pairwise_cons.mp ordered
    rw [put]
    split
    · rename_i before
      have apart : ∀ entry ∈ first :: rest, entry.1 ≠ key := by
        intro entry member same
        rcases List.mem_cons.mp member with rfl | later
        · exact lt_irrefl key (same ▸ before)
        · exact lt_irrefl key (lt_trans before (same ▸ least entry later))
      rw [List.mem_cons]
      exact or_congr_right ⟨fun member => ⟨member, apart entry member⟩, And.left⟩
    · split
      · rename_i same
        have apart : ∀ entry ∈ rest, entry.1 ≠ key := fun entry member equal =>
          lt_irrefl key (by simpa [← same, equal] using least entry member)
        rw [List.mem_cons, List.mem_cons]
        constructor
        · rintro (is | member)
          · exact Or.inl is
          · exact Or.inr ⟨Or.inr member, apart entry member⟩
        · rintro (is | ⟨rfl | member, other⟩)
          · exact Or.inl is
          · exact absurd same.symm other
          · exact Or.inr member
      · rename_i other
        rw [List.mem_cons, List.mem_cons, ih ordered]
        constructor
        · rintro (rfl | is | member)
          · exact Or.inr ⟨Or.inl rfl, fun same => other same.symm⟩
          · exact Or.inl is
          · exact Or.inr ⟨Or.inr member.1, member.2⟩
        · rintro (is | ⟨rfl | member, apart⟩)
          · exact Or.inr (Or.inl is)
          · exact Or.inl rfl
          · exact Or.inr (Or.inr ⟨member, apart⟩)

theorem Ordered.put {key : κ} {value : ν} {map : List (κ × ν)} (ordered : Ordered map) : Ordered (put key value map) := by
  induction map with
  | nil => simp [Ordered, CommonMeasure.put]
  | cons first rest ih =>
    obtain ⟨least, inner⟩ := List.pairwise_cons.mp ordered
    rw [CommonMeasure.put]
    split
    · rename_i before
      refine List.pairwise_cons.mpr ⟨?_, ordered⟩
      intro entry member
      rcases List.mem_cons.mp member with rfl | later
      · exact before
      · exact lt_trans before (least entry later)
    · split
      · rename_i same
        exact List.pairwise_cons.mpr ⟨fun entry member => same ▸ least entry member, inner⟩
      · rename_i before other
        have after : first.1 < key := lt_of_le_of_ne (not_lt.mp before) fun same => other same.symm
        refine List.pairwise_cons.mpr ⟨?_, ih inner⟩
        intro entry member
        rcases (mem_put inner).mp member with rfl | ⟨member, _⟩
        · exact after
        · exact least entry member

theorem ordered_put_all (entries : List (κ × ν)) : Ordered (entries.foldl (fun map entry => put entry.1 entry.2 map) []) := by
  induction entries using List.reverseRecOn with
  | nil => exact List.Pairwise.nil
  | append_singleton entries last ih =>
    rw [List.foldl_append, List.foldl_cons, List.foldl_nil]
    exact ih.put

theorem mem_put_all (entries : List (κ × ν)) (entry : κ × ν) :
    entry ∈ entries.foldl (fun map entry => put entry.1 entry.2 map) [] ↔
      ∃ before after, entries = before ++ entry :: after ∧ ∀ later ∈ after, later.1 ≠ entry.1 := by
  induction entries using List.reverseRecOn with
  | nil => simp
  | append_singleton entries last ih =>
    rw [List.foldl_append, List.foldl_cons, List.foldl_nil]
    refine (mem_put (ordered_put_all entries)).trans ?_
    constructor
    · rintro (rfl | ⟨member, other⟩)
      · exact ⟨entries, [], rfl, nofun⟩
      · obtain ⟨before, after, rfl, apart⟩ := ih.mp member
        refine ⟨before, after ++ [last], by simp, fun later listed => ?_⟩
        rcases List.mem_append.mp listed with inside | ends
        · exact apart later inside
        · exact List.mem_singleton.mp ends ▸ Ne.symm other
    · rintro ⟨before, after, cut, apart⟩
      rcases List.eq_nil_or_concat after with rfl | ⟨inner, ends, rfl⟩
      · exact Or.inl (List.append_inj' cut rfl).2 |>.imp (fun same => (List.cons.inj same).1.symm) id
      · rw [List.concat_eq_append, ← List.cons_append, ← List.append_assoc] at cut
        obtain ⟨rfl, same⟩ := List.append_inj' cut rfl
        obtain rfl := (List.cons.inj same).1
        have other := apart last (by simp)
        exact Or.inr ⟨ih.mpr ⟨before, inner, rfl, fun later listed => apart later (by simp [listed])⟩, Ne.symm other⟩

def getAt (map : List (κ × ν)) (key : κ) : Option ν := (map.find? fun entry => entry.1 = key).map Prod.snd

def putAll (map entries : List (κ × ν)) : List (κ × ν) := entries.foldl (fun map entry => put entry.1 entry.2 map) map

theorem getAt_cons (entry : κ × ν) (map : List (κ × ν)) (key : κ) :
    getAt (entry :: map) key = if entry.1 = key then some entry.2 else getAt map key := by
  unfold getAt
  rw [List.find?_cons]
  by_cases same : entry.1 = key
  · simp [same]
  · simp [same]

theorem getAt_isSome {map : List (κ × ν)} {key : κ} : (getAt map key).isSome ↔ ∃ entry ∈ map, entry.1 = key := by
  simp [getAt, List.find?_isSome]

theorem getAt_put (key other : κ) (value : ν) (map : List (κ × ν)) :
    getAt (put key value map) other = if key = other then some value else getAt map other := by
  induction map with
  | nil => exact getAt_cons (key, value) [] other
  | cons entry rest ih =>
    rw [put]
    split
    · exact getAt_cons (key, value) _ other
    · split
      · rename_i same
        subst same
        rw [getAt_cons, getAt_cons]
        split
        · rfl
        · rfl
      · rename_i apart
        rw [getAt_cons, getAt_cons, ih]
        by_cases first : entry.1 = other
        · rw [if_pos first, if_pos first, if_neg fun same => apart (same.trans first.symm)]
        · rw [if_neg first, if_neg first]

theorem getAt_filter (keeps : κ → Bool) (map : List (κ × ν)) (key : κ) :
    getAt (map.filter fun entry => keeps entry.1) key = if keeps key then getAt map key else none := by
  induction map with
  | nil => simp [getAt]
  | cons entry rest ih =>
    rw [List.filter_cons, getAt_cons]
    by_cases same : entry.1 = key
    · subst same
      split
      · rw [getAt_cons, if_pos rfl, if_pos rfl]
      · rename_i dropped
        rw [ih, if_neg dropped]
    · rw [if_neg same]
      split
      · rw [getAt_cons, if_neg same, ih]
      · exact ih

theorem getAt_without (gone : List κ) (map : List (κ × ν)) (key : κ) :
    getAt (map.filter fun entry => decide (entry.1 ∉ gone)) key = if key ∈ gone then none else getAt map key := by
  rw [getAt_filter fun key => decide (key ∉ gone)]
  by_cases is : key ∈ gone
  · simp [is]
  · simp [is]

theorem getAt_putAll (map entries : List (κ × ν)) (key : κ) :
    getAt (putAll map entries) key = (getAt (putAll [] entries) key).or (getAt map key) := by
  induction entries using List.reverseRecOn with
  | nil => rfl
  | append_singleton entries last ih =>
    unfold putAll at ih ⊢
    rw [List.foldl_append, List.foldl_append, List.foldl_cons, List.foldl_cons, List.foldl_nil, List.foldl_nil, getAt_put,
      getAt_put, ih]
    split
    · rfl
    · rfl

theorem Ordered.putAll {map : List (κ × ν)} (ordered : Ordered map) (entries : List (κ × ν)) :
    Ordered (putAll map entries) := by
  induction entries generalizing map with
  | nil => exact ordered
  | cons entry entries ih => exact ih ordered.put

theorem Ordered.nodup {map : List (κ × ν)} (ordered : Ordered map) : (map.map Prod.fst).Nodup :=
  List.pairwise_map.mpr (ordered.imp fun before => ne_of_lt before)

theorem Ordered.getAt_of_mem {map : List (κ × ν)} (ordered : Ordered map) {entry : κ × ν} (member : entry ∈ map) :
    getAt map entry.1 = some entry.2 := by
  induction map with
  | nil => cases member
  | cons first rest ih =>
    obtain ⟨least, inner⟩ := List.pairwise_cons.mp ordered
    rw [getAt_cons]
    rcases List.mem_cons.mp member with rfl | later
    · exact if_pos rfl
    · rw [if_neg (ne_of_lt (least entry later))]
      exact ih inner later

theorem Ordered.above {map : List (κ × ν)} (ordered : Ordered map) {position : Nat} {entry : κ × ν}
    (is : map[position]? = some entry) :
    map.length - (position + 1) ≤ (map.filter fun other => decide (entry.1 < other.1)).length := by
  obtain ⟨small, rfl⟩ := List.getElem?_eq_some_iff.mp is
  have inner : Ordered (map.drop position) := List.Pairwise.drop ordered
  rw [List.drop_eq_getElem_cons small] at inner
  have later := (List.pairwise_cons.mp inner).1
  rw [← List.length_drop, ← List.filter_eq_self.mpr fun other member => decide_eq_true (later other member)]
  exact ((List.drop_sublist _ _).filter _).length_le

end CommonMeasure
