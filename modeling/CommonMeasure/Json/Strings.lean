import CommonMeasure.Json.Members

namespace CommonMeasure.Json

structure Allowed where
  key : String → Prop
  string : String → Prop
  length : Nat → Prop

inductive Value.Within (allowed : Allowed) : Value → Prop
  | null : Within allowed .null
  | bool {b} : Within allowed (.bool b)
  | number {n} : Within allowed (.number n)
  | string {s} : allowed.string s → Within allowed (.string s)
  | array {items} : allowed.length items.length → (∀ item ∈ items, Within allowed item) → Within allowed (.array items)
  | object {members} : (∀ member ∈ members, allowed.key member.1) → (∀ member ∈ members, Within allowed member.2) →
    Within allowed (.object members)

inductive Value.Occurs (s : String) : Value → Prop
  | string : Occurs s (.string s)
  | item {items item} : item ∈ items → Occurs s item → Occurs s (.array items)
  | key {members value} : (s, value) ∈ members → Occurs s (.object members)
  | value {members name value} : (name, value) ∈ members → Occurs s value → Occurs s (.object members)

namespace Value

variable {allowed other : Allowed}

attribute [simp] Within.null Within.bool Within.number

@[simp] theorem within_string {s : String} : (Value.string s).Within allowed ↔ allowed.string s :=
  ⟨fun within => by cases within; assumption, .string⟩

@[simp] theorem within_array {items : List Value} :
    (Value.array items).Within allowed ↔ allowed.length items.length ∧ ∀ item ∈ items, item.Within allowed :=
  ⟨fun within => by cases within; exact ⟨by assumption, by assumption⟩, fun ⟨length, items⟩ => .array length items⟩

theorem within_object {members : List (String × Value)} :
    (Value.object members).Within allowed ↔ ∀ member ∈ members, allowed.key member.1 ∧ member.2.Within allowed :=
  ⟨fun within => by
    cases within with
    | object keys held => exact fun member listed => ⟨keys member listed, held member listed⟩,
    fun held => .object (fun member listed => (held member listed).1) fun member listed => (held member listed).2⟩

@[simp] theorem within_object_nil : (Value.object []).Within allowed := within_object.mpr (by simp)

@[simp] theorem within_object_cons {member : String × Value} {members : List (String × Value)} :
    (Value.object (member :: members)).Within allowed ↔
      (allowed.key member.1 ∧ member.2.Within allowed) ∧ (Value.object members).Within allowed := by
  simp only [within_object, List.forall_mem_cons]

@[simp] theorem within_object_append {members more : List (String × Value)} :
    (Value.object (members ++ more)).Within allowed ↔
      (Value.object members).Within allowed ∧ (Value.object more).Within allowed := by
  simp only [within_object, List.forall_mem_append]

theorem Within.mono {value : Value} (within : value.Within allowed) (key : ∀ s, allowed.key s → other.key s)
    (string : ∀ s, allowed.string s → other.string s) (length : ∀ n, allowed.length n → other.length n) :
    value.Within other := by
  induction within with
  | null => exact .null
  | bool => exact .bool
  | number => exact .number
  | string held => exact .string (string _ held)
  | array short _ ih => exact .array (length _ short) ih
  | object keys _ ih => exact .object (fun member listed => key _ (keys member listed)) ih

theorem Within.members {value : Value} (within : value.Within allowed) : (Value.object (membersOf value)).Within allowed := by
  cases value with
  | object members => exact within
  | _ => exact within_object_nil

theorem Within.get {value : Value} (within : value.Within allowed) (name : String) : (value.get name).Within allowed := by
  cases value with
  | object members =>
    rw [Value.get]
    cases found : members.reverse.find? fun member => member.1 = name with
    | none => exact .null
    | some member => exact (within_object.mp within member (List.mem_reverse.mp (List.mem_of_find?_eq_some found))).2
  | _ => exact .null

theorem Within.set {members : List (String × Value)} {name : String} {value : Value}
    (within : (Value.object members).Within allowed) (key : allowed.key name) (held : value.Within allowed) :
    (Value.object (setMember members name value)).Within allowed := by
  refine within_object.mpr fun member listed => ?_
  rcases mem_setMember.mp listed with rfl | ⟨listed, _⟩
  · exact ⟨key, held⟩
  · exact within_object.mp within member listed

theorem within_of_occurs (value : Value) (key : ∀ s, Occurs s value → allowed.key s)
    (string : ∀ s, Occurs s value → allowed.string s) (length : ∀ n, allowed.length n) : value.Within allowed := by
  match value with
  | .null => exact .null
  | .bool _ => exact .bool
  | .number _ => exact .number
  | .string s => exact .string (string s .string)
  | .array items =>
    exact .array (length _) fun item listed => within_of_occurs item (fun s occurs => key s (.item listed occurs))
      (fun s occurs => string s (.item listed occurs)) length
  | .object members =>
    refine .object (fun (name, inner) listed => key name (.key listed)) fun (name, inner) listed => ?_
    have smaller := List.sizeOf_lt_of_mem listed
    exact within_of_occurs inner (fun s occurs => key s (.value listed occurs))
      (fun s occurs => string s (.value listed occurs)) length
termination_by sizeOf value
decreasing_by
  · have smaller := List.sizeOf_lt_of_mem listed
    simp only [Value.array.sizeOf_spec]
    omega
  · simp only [Prod.mk.sizeOf_spec, Value.object.sizeOf_spec] at smaller ⊢
    omega

end Value

def entries (value : Value) : List (String × Value) :=
  (membersOf value).foldl (fun members (name, held) => setMember members name held) []

theorem entries_append (members : List (String × Value)) (member : String × Value) :
    entries (.object (members ++ [member])) = setMember (entries (.object members)) member.1 member.2 := by
  rw [entries, membersOf, List.foldl_append]
  rfl

theorem nodup_entries (value : Value) : ((entries value).map Prod.fst).Nodup := by
  cases value with
  | object members =>
    induction members using List.reverseRecOn with
    | nil => exact List.nodup_nil
    | append_singleton members member ih =>
      rw [entries_append]
      exact nodup_setMember ih
  | _ => exact List.nodup_nil

theorem mem_entries {value : Value} {member : String × Value} (listed : member ∈ entries value) :
    member ∈ membersOf value := by
  cases value with
  | object members =>
    induction members using List.reverseRecOn with
    | nil => exact listed
    | append_singleton members last ih =>
      rw [entries_append] at listed
      rcases mem_setMember.mp listed with rfl | ⟨listed, _⟩
      · exact List.mem_append_right _ List.mem_cons_self
      · exact List.mem_append_left _ (ih listed)
  | _ => exact listed

theorem entries_of_nodup {members : List (String × Value)} (named : (members.map Prod.fst).Nodup) :
    entries (.object members) = members := by
  induction members using List.reverseRecOn with
  | nil => rfl
  | append_singleton members last ih =>
    rw [List.map_append, List.nodup_append] at named
    rw [entries_append, ih named.1, setMember, if_neg]
    exact fun listed => named.2.2 _ listed _ List.mem_cons_self rfl

theorem get_entries (value : Value) (name : String) : (Value.object (entries value)).get name = value.get name := by
  cases value with
  | object members =>
    induction members using List.reverseRecOn with
    | nil => rfl
    | append_singleton members last ih =>
      rw [entries_append]
      by_cases same : name = last.1
      · rw [same, get_setMember (nodup_entries _), Value.get]
        simp
      · rw [get_setMember_ne (nodup_entries _) same, ih, Value.get, Value.get, List.reverse_append]
        simp [Ne.symm same]
  | _ => rfl

theorem get_of_mem_entries {value : Value} {member : String × Value} (listed : member ∈ entries value) :
    value.get member.1 = member.2 := by
  rw [← get_entries]
  exact get_of_mem (nodup_entries value) listed

end CommonMeasure.Json
