import CommonMeasure.Json.Compact
import CommonMeasure.Json.Members
import Mathlib.Data.List.Sort
import Mathlib.Order.Lex
import Mathlib.Data.List.Lex

namespace CommonMeasure.Json

def utf16Units (c : Char) : List Nat :=
  if c.toNat < 0x10000 then [c.toNat]
  else [0xD800 + (c.toNat - 0x10000) / 0x400, 0xDC00 + (c.toNat - 0x10000) % 0x400]

def encodeUtf16 (s : String) : List Nat := s.toList.flatMap utf16Units

theorem utf16Units_append {c d : Char} {more rest : List Nat} (same : utf16Units c ++ more = utf16Units d ++ rest) :
    c = d ∧ more = rest := by
  have scalar : ∀ c : Char, c.toNat < 0xD800 ∨ 0xDFFF < c.toNat ∧ c.toNat < 0x110000 := fun c => c.valid
  have := scalar c
  have := scalar d
  have units : c.toNat = d.toNat ∧ more = rest := by
    unfold utf16Units at same
    split at same <;> split at same <;>
      simp only [List.cons_append, List.nil_append, List.cons.injEq] at same <;>
      refine ⟨?_, ?_⟩ <;> first | omega | exact same.2 | exact same.2.2
  exact ⟨Char.ext (UInt32.toNat_inj.mp units.1), units.2⟩

theorem utf16Units_ne (c : Char) : utf16Units c ≠ [] := by
  unfold utf16Units
  split <;> exact List.cons_ne_nil _ _

theorem encodeUtf16_injective {s t : String} (same : encodeUtf16 s = encodeUtf16 t) : s = t := by
  have chars : ∀ xs ys : List Char, xs.flatMap utf16Units = ys.flatMap utf16Units → xs = ys := by
    intro xs
    induction xs with
    | nil =>
      intro ys same
      cases ys with
      | nil => rfl
      | cons d ys => exact (utf16Units_ne d (List.append_eq_nil_iff.mp same.symm).1).elim
    | cons c xs ih =>
      intro ys same
      cases ys with
      | nil => exact (utf16Units_ne c (List.append_eq_nil_iff.mp same).1).elim
      | cons d ys =>
        obtain ⟨rfl, rest⟩ := utf16Units_append (by simpa using same)
        rw [ih ys rest]
  exact String.toList_injective (chars _ _ same)

def nameLe (a b : String × Value) : Prop := encodeUtf16 a.1 ≤ encodeUtf16 b.1

instance : DecidableRel nameLe := fun a b => inferInstanceAs (Decidable (encodeUtf16 a.1 ≤ encodeUtf16 b.1))

section

variable (number : Number → Number)

mutual

def canonical : Value → Value
  | .number n => .number (number n)
  | .array items => .array (canonicalItems items)
  | .object members => .object ((canonicalMembers members).insertionSort nameLe)
  | .null => .null
  | .bool b => .bool b
  | .string s => .string s

def canonicalItems : List Value → List Value
  | [] => []
  | item :: more => canonical item :: canonicalItems more

def canonicalMembers : List (String × Value) → List (String × Value)
  | [] => []
  | (name, value) :: more =>
    if name ∈ more.map Prod.fst then canonicalMembers more else (name, canonical value) :: canonicalMembers more

end

def canonical_json (value : Value) : Bytes := write (canonical number value)

variable {number} {value v w : Value} {members : List (String × Value)} {name : String}

theorem canonicalItems_eq (items : List Value) : canonicalItems number items = items.map (canonical number) := by
  induction items with
  | nil => rfl
  | cons item more ih => rw [canonicalItems, ih, List.map_cons]

theorem mem_names_canonical : name ∈ (canonicalMembers number members).map Prod.fst ↔ name ∈ members.map Prod.fst := by
  induction members with
  | nil => rfl
  | cons member more ih =>
    rw [canonicalMembers]
    split
    · rename_i again
      rw [ih, List.map_cons, List.mem_cons]
      exact ⟨.inr, fun listed => listed.elim (fun is => is ▸ again) id⟩
    · rw [List.map_cons, List.mem_cons, ih, List.map_cons, List.mem_cons]

theorem nodup_canonical : ((canonicalMembers number members).map Prod.fst).Nodup := by
  induction members with
  | nil => exact List.nodup_nil
  | cons member more ih =>
    rw [canonicalMembers]
    split
    · exact ih
    · rename_i absent
      exact List.nodup_cons.mpr ⟨fun listed => absent (mem_names_canonical.mp listed), ih⟩

theorem get_cons (member : String × Value) (more : List (String × Value)) (name : String) :
    (Value.object (member :: more)).get name =
      if name ∈ more.map Prod.fst then (Value.object more).get name
      else if member.1 = name then member.2 else .null := by
  split
  · rename_i later
    obtain ⟨other, listed, rfl⟩ := List.mem_map.mp later
    have found : (more.reverse.find? fun member => member.1 = other.1).isSome :=
      List.find?_isSome.mpr ⟨other, List.mem_reverse.mpr listed, by simp⟩
    obtain ⟨last, is⟩ := Option.isSome_iff_exists.mp found
    rw [Value.get, Value.get, List.reverse_cons, List.find?_append, is]
    rfl
  · rename_i absent
    have none_ : more.reverse.find? (fun member => member.1 = name) = none := List.find?_eq_none.mpr fun other listed is =>
      absent (List.mem_map.mpr ⟨other, List.mem_reverse.mp listed, by simpa using is⟩)
    rw [Value.get, List.reverse_cons, List.find?_append, none_]
    by_cases is : member.1 = name <;> simp [is]

theorem get_canonicalMembers : (Value.object (canonicalMembers number members)).get name =
    canonical number ((Value.object members).get name) := by
  induction members with
  | nil => rfl
  | cons member more ih =>
    rw [canonicalMembers, get_cons]
    by_cases later : name ∈ more.map Prod.fst
    · rw [if_pos later, ← ih]
      split
      · rfl
      · rw [get_cons, if_pos (mem_names_canonical.mpr later)]
    · rw [if_neg later]
      by_cases is : member.1 = name
      · rw [if_pos is, if_neg (is ▸ later), get_cons, if_neg (mt mem_names_canonical.mp later), if_pos is]
      · have absent : (Value.object (canonicalMembers number more)).get name = .null :=
          get_of_not_mem (mt mem_names_canonical.mp later)
        rw [if_neg is]
        split
        · exact absent
        · rw [get_cons, if_neg (mt mem_names_canonical.mp later), if_neg is]
          rfl

theorem canonical_object (members : List (String × Value)) : canonical number (.object members) =
    .object ((canonicalMembers number members).insertionSort nameLe) := rfl

theorem canonical_array (items : List Value) :
    canonical number (.array items) = .array (items.map (canonical number)) := by
  rw [canonical, canonicalItems_eq]

@[simp] theorem asStr_canonical (value : Value) : (canonical number value).asStr = value.asStr := by
  cases value <;> rfl

theorem get_canonical (value : Value) (name : String) :
    (canonical number value).get name = canonical number (value.get name) := by
  cases value with
  | object members =>
    rw [canonical_object, ← get_canonicalMembers]
    have sorted := List.perm_insertionSort nameLe (canonicalMembers number members)
    exact get_congr ((sorted.map Prod.fst).nodup_iff.mpr nodup_canonical) nodup_canonical fun _ => sorted.mem_iff
  | _ => rfl

instance : Std.Total nameLe := ⟨fun a b => le_total (encodeUtf16 a.1) (encodeUtf16 b.1)⟩

instance : IsTrans (String × Value) nameLe := ⟨fun _ _ _ => le_trans⟩

theorem mem_canonicalMembers {form : Value} : (name, form) ∈ canonicalMembers number members ↔
    name ∈ members.map Prod.fst ∧ form = canonical number ((Value.object members).get name) := by
  rw [← get_canonicalMembers, ← @mem_names_canonical number]
  constructor
  · intro listed
    exact ⟨List.mem_map_of_mem listed, (get_of_mem nodup_canonical listed).symm⟩
  · rintro ⟨named, rfl⟩
    obtain ⟨⟨_, held⟩, listed, rfl⟩ := List.mem_map.mp named
    rwa [get_of_mem nodup_canonical listed]

theorem canonical_object_congr {more : List (String × Value)}
    (names : ∀ name, name ∈ members.map Prod.fst ↔ name ∈ more.map Prod.fst)
    (forms : ∀ name ∈ members.map Prod.fst,
      canonical number ((Value.object members).get name) = canonical number ((Value.object more).get name)) :
    canonical number (.object members) = canonical number (.object more) := by
  have same : (canonicalMembers number members).Perm (canonicalMembers number more) := by
    refine (List.perm_ext_iff_of_nodup nodup_canonical.of_map nodup_canonical.of_map).mpr fun (name, form) => ?_
    rw [mem_canonicalMembers, mem_canonicalMembers, ← names]
    exact and_congr_right fun listed => by rw [forms name listed]
  have left := List.perm_insertionSort nameLe (canonicalMembers number members)
  have right := List.perm_insertionSort nameLe (canonicalMembers number more)
  rw [canonical_object, canonical_object]
  congr 1
  refine List.Perm.eq_of_pairwise (fun a b first second before after => ?_) (List.pairwise_insertionSort nameLe _)
    (List.pairwise_insertionSort nameLe _) (left.trans (same.trans right.symm))
  have named := encodeUtf16_injective (le_antisymm before after)
  exact List.inj_on_of_nodup_map nodup_canonical (left.subset first) (same.symm.subset (right.subset second)) named

theorem write_injective {v w : Value} (same : write v = write w) : v = w := by
  have read := readDocument_write (max v.depth w.depth) v
  rw [same, readDocument_write, if_pos (le_max_left _ _), if_pos (le_max_right _ _)] at read
  exact (Option.some.inj read).symm

theorem canonical_json_inj : canonical_json number v = canonical_json number w ↔ canonical number v = canonical number w :=
  ⟨write_injective, congrArg write⟩

end

end CommonMeasure.Json
