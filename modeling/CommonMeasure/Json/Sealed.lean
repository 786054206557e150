import CommonMeasure.Json.Canonical
import CommonMeasure.Json.Printed

/-!
# What a seal is taken over

Values of integers, with no member named twice, have one canonical text for each value: it reads back as the value, members in
the order of their names, and values that differ otherwise than in that order have different texts.
-/

namespace CommonMeasure.Json

/-! ### Numbers -/

def Number.value (n : Number) : ℚ :=
  match n.text with
  | [] => 0
  | b :: rest => if b = 45 then -denoted rest else denoted (b :: rest)

def Number.Whole (n : Number) (m : Int) : Prop := n.value = m ∧ m.natAbs ≤ 2 ^ 53

/-- Doubles hold integers to 2^53 exactly, and `ryu` renders them with one zero behind the point. -/
structure Exact (as_f64 : Number → Double) : Prop where
  zero : ∀ n m, n.Whole m → ((as_f64 n).zero = true ↔ m = 0)
  negative : ∀ n m, n.Whole m → m ≠ 0 → ((as_f64 n).negative = true ↔ m < 0)
  rendered : ∀ n m, n.Whole m → m ≠ 0 → (as_f64 n).rendered = (Rendering.plain (decimal m.natAbs) [48]).text

theorem Number.ext_text {n k : Number} (same : n.text = k.text) : n = k := by
  cases n
  cases k
  cases same
  rfl

def printed (as_f64 : Number → Double) (n : Number) : Number :=
  match write_number (as_f64 n) with
  | none => n
  | some text => if whole : isNumber text = true then ⟨text, whole⟩ else n

section

variable {as_f64 : Number → Double} {n : Number} {m : Int}

theorem decimal_length {m : Nat} (small : m ≤ 2 ^ 53) : (decimal m).length ≤ 21 := by
  unfold decimal
  split
  · decide
  · rw [List.length_reverse, List.length_map]
    apply (Nat.digits_length_le_iff (by decide) m).mpr
    omega

def intText (m : Int) : Bytes := if m < 0 then 45 :: decimal m.natAbs else decimal m.natAbs

theorem shortest_whole {m : Nat} (positive : 0 < m) : ∃ core count,
    shortest_digits (Rendering.plain (decimal m) [48]).text = (core, ((decimal m).length : Int)) ∧ decimal m = core ++
      zeros count := by
  obtain ⟨b, rest, spelled, other, _⟩ := decimal_head positive
  have digit := decimal_digits m
  have unmarked : split_once isExponentMark (decimal m ++ 46 :: [48]) = none := by
    apply split_once_none
    intro c listed
    rcases List.mem_append.mp listed with listed | listed
    · exact (digit_unmarked (digit c listed)).1
    · simp only [List.mem_cons, List.not_mem_nil, or_false] at listed
      rcases listed with rfl | rfl
      all_goals rfl
  have cut : split_once isPoint (decimal m ++ 46 :: [48]) = some (decimal m, [48]) :=
    split_once_some (fun c listed => (digit_unmarked (digit c listed)).2) rfl
  obtain ⟨trailing, trimmed⟩ := @without_zeros_trimmed (decimal m ++ [48])
    ⟨b, List.mem_append_left _ (by rw [spelled]; exact List.mem_cons_self), other⟩
  obtain ⟨core, leading, trims⟩ : ∃ core leading, without_zeros (decimal m ++ [48]) = (core, leading) := ⟨_, _, rfl⟩
  rw [trims] at trimmed
  have whole := trimmed.whole
  have none_ : leading = 0 := by
    cases leading with
    | zero => rfl
    | succ leading =>
      have first : b = 48 := by
        rw [spelled] at whole
        exact (List.cons.inj whole).1
      exact (other first).elim
  have some_ : trailing ≠ 0 := by
    rintro rfl
    have ends := congrArg List.getLast? whole
    rw [none_] at ends
    simp only [zeros, List.replicate_zero, List.nil_append, List.append_nil, List.getLast?_append_cons] at ends
    exact trimmed.last 48 ends.symm rfl
  obtain ⟨count, rfl⟩ := Nat.exists_eq_succ_of_ne_zero some_
  refine ⟨core, count, ?_, ?_⟩
  · simp only [Rendering.text, shortest_digits, unmarked, cut, Option.getD_some, trims, none_]
    simp
  · have last : zeros (count + 1) = zeros count ++ [48] := List.replicate_succ'
    rw [none_, last, ← List.append_assoc] at whole
    exact (List.append_inj' whole rfl).1

theorem write_number_whole (exact : Exact as_f64) (whole : n.Whole m) : write_number (as_f64 n) = some (intText m) := by
  by_cases zero : m = 0
  · rw [write_number, if_pos ((exact.zero n m whole).mpr zero), zero]
    rfl
  · have nonzero : ¬(as_f64 n).zero = true := fun is => zero ((exact.zero n m whole).mp is)
    obtain ⟨core, count, cut, spelled⟩ := shortest_whole (Int.natAbs_pos.mpr zero)
    have fits := decimal_length whole.2
    have length := congrArg List.length spelled
    rw [List.length_append, zeros_length] at length
    have inside : (core.length : Int) ≤ (decimal m.natAbs).length ∧ ((decimal m.natAbs).length : Int) ≤ 21 := by omega
    have left : (((decimal m.natAbs).length : Int) - core.length).toNat = count := by omega
    have pushed : notate core (decimal m.natAbs).length = some (decimal m.natAbs) := by
      simp only [notate, if_pos inside, left]
      rw [← spelled]
    simp only [write_number, if_neg nonzero, exact.rendered n m whole zero, cut, pushed, Option.map_some, intText,
      exact.negative n m whole zero]

theorem isNumber_intText (m : Int) : isNumber (intText m) = true := by
  rw [intText]
  split
  · rename_i negative
    obtain ⟨b, rest, spelled, other, digit⟩ := @decimal_head m.natAbs (by omega)
    have digits := decimal_digits m.natAbs
    rw [isNumber, List.all_cons, number_bytes digits]
    rw [spelled] at digits ⊢
    have sign : isNumberByte 45 = true := by decide
    have run := NumberState.run_whole fun d listed => digits d (List.mem_cons_of_mem _ listed)
    rw [sign]
    show ((NumberState.minus.step b).bind fun next => next.run rest).any _ = true
    rw [NumberState.step, if_neg other, if_pos digit, Option.bind_some, run]
    rfl
  · exact isNumber_decimal _

theorem printed_whole (exact : Exact as_f64) (whole : n.Whole m) : (printed as_f64 n).text = intText m := by
  rw [printed, write_number_whole exact whole]
  dsimp only
  rw [dif_pos (isNumber_intText m)]

theorem denoted_decimal (m : Nat) : denoted (decimal m) = m := by
  rw [denoted_whole (decimal_digits m), digitsValue_decimal]

theorem value_printed (exact : Exact as_f64) (whole : n.Whole m) : (printed as_f64 n).value = m := by
  rw [Number.value, printed_whole exact whole, intText]
  split
  · rename_i spelled
    split at spelled
    · cases spelled
    · have some_ : decimal m.natAbs ≠ [] := by
        unfold decimal
        split
        · simp
        · rename_i nonzero
          simp [Nat.digits_ne_nil_iff_ne_zero.mpr nonzero]
      exact (some_ spelled).elim
  · rename_i b rest spelled
    split at spelled
    · rename_i negative
      obtain ⟨rfl, rfl⟩ := List.cons.inj spelled
      rw [if_pos rfl, denoted_decimal]
      have size : (m.natAbs : Int) = -m := by omega
      have same : (m.natAbs : ℚ) = -(m : ℚ) := by rw [← Int.cast_natCast, size, Int.cast_neg]
      rw [same, neg_neg]
    · rename_i positive
      have first : isDigit b = true := decimal_digits m.natAbs b (by rw [spelled]; exact List.mem_cons_self)
      have unsigned : b ≠ 45 := by
        rintro rfl
        cases first
      have size : (m.natAbs : Int) = m := by omega
      have same : (m.natAbs : ℚ) = (m : ℚ) := by rw [← Int.cast_natCast, size]
      rw [if_neg unsigned, ← spelled, denoted_decimal, same]

end

inductive Sealable : Value → Prop
  | null : Sealable .null
  | bool {b} : Sealable (.bool b)
  | number {n m} : n.Whole m → Sealable (.number n)
  | string {s} : Sealable (.string s)
  | array {items} : (∀ item ∈ items, Sealable item) → Sealable (.array items)
  | object {members} : (members.map Prod.fst).Nodup → (∀ member ∈ members, Sealable member.2) → Sealable (.object members)

inductive Alike : Value → Value → Prop
  | null : Alike .null .null
  | bool {b} : Alike (.bool b) (.bool b)
  | number {n k} : n.value = k.value → Alike (.number n) (.number k)
  | string {s} : Alike (.string s) (.string s)
  | array {items more : List Value} : items.length = more.length →
    (∀ (i : Nat) v w, items[i]? = some v → more[i]? = some w → Alike v w) → Alike (.array items) (.array more)
  | object {members more} : (members.map Prod.fst).Perm (more.map Prod.fst) →
    (∀ name v w, (name, v) ∈ members → (name, w) ∈ more → Alike v w) → Alike (.object members) (.object more)

inductive Ascending : Value → Prop
  | null : Ascending .null
  | bool {b} : Ascending (.bool b)
  | number {n} : Ascending (.number n)
  | string {s} : Ascending (.string s)
  | array {items} : (∀ item ∈ items, Ascending item) → Ascending (.array items)
  | object {members} : members.Pairwise (fun a b => encodeUtf16 a.1 < encodeUtf16 b.1) →
    (∀ member ∈ members, Ascending member.2) → Ascending (.object members)

theorem Alike.symm {v w : Value} (alike : Alike v w) : Alike w v := by
  induction alike with
  | null => exact .null
  | bool => exact .bool
  | number same => exact .number same.symm
  | string => exact .string
  | array length _ ih => exact .array length.symm fun i v w first second => ih i w v second first
  | object names _ ih => exact .object names.symm fun name v w first second => ih name w v second first

theorem Alike.trans {u v w : Value} (alike : Alike u v) (also : Alike v w) : Alike u w := by
  induction alike generalizing w with
  | null => exact also
  | bool => exact also
  | number same =>
    cases also with
    | number also => exact .number (same.trans also)
  | string => exact also
  | @array items more length _ ih =>
    cases also with
    | @array _ others length' also =>
      refine .array (length.trans length') fun i u w first second => ?_
      have within : i < more.length := by
        rw [← length]
        exact (List.getElem?_eq_some_iff.mp first).1
      have middle : more[i]? = some more[i] := List.getElem?_eq_getElem within
      exact ih i u _ first middle (also i _ w middle second)
  | @object members more names _ ih =>
    cases also with
    | @object _ others names' also =>
      refine .object (names.trans names') fun name u w first second => ?_
      have named : name ∈ more.map Prod.fst := names.subset (List.mem_map_of_mem first)
      obtain ⟨⟨_, v⟩, listed, rfl⟩ := List.mem_map.mp named
      exact ih _ u v first listed (also _ v w listed second)

section

variable {as_f64 : Number → Double} {v w : Value}

theorem canonicalMembers_map {number : Number → Number} {members : List (String × Value)}
    (named : (members.map Prod.fst).Nodup) :
    canonicalMembers number members = members.map fun member => (member.1, canonical number member.2) := by
  induction members with
  | nil => rfl
  | cons member more ih =>
    rw [List.map_cons, List.nodup_cons] at named
    rw [canonicalMembers, if_neg named.1, ih named.2, List.map_cons]

theorem sorted_perm {number : Number → Number} {members : List (String × Value)} (named : (members.map Prod.fst).Nodup) :
    ((canonicalMembers number members).insertionSort nameLe).Perm
      (members.map fun member => (member.1, canonical number member.2)) := by
  rw [← canonicalMembers_map named]
  exact List.perm_insertionSort _ _

theorem alike_canonical (exact : Exact as_f64) (sealable : Sealable v) : Alike v (canonical (printed as_f64) v) := by
  induction sealable with
  | null => exact .null
  | bool => exact .bool
  | number whole => exact .number (whole.1.trans (value_printed exact whole).symm)
  | string => exact .string
  | @array items _ ih =>
    rw [canonical_array]
    refine .array (List.length_map _).symm fun i v w first second => ?_
    rw [List.getElem?_map, first] at second
    obtain rfl := Option.some.inj second
    exact ih v (List.mem_of_getElem? first)
  | @object members named _ ih =>
    have sorted := @sorted_perm (printed as_f64) _ named
    rw [canonical_object]
    refine .object ?_ fun name v w first second => ?_
    · have names := sorted.map Prod.fst
      rw [List.map_map] at names
      exact names.symm
    · obtain ⟨⟨label, other⟩, listed, same⟩ := List.mem_map.mp (sorted.subset second)
      obtain ⟨rfl, rfl⟩ := Prod.mk.inj same
      have one : (label, v) = (label, other) := List.inj_on_of_nodup_map named first listed rfl
      obtain ⟨_, rfl⟩ := Prod.mk.inj one
      exact ih _ first

theorem ascending_canonical {number : Number → Number} (sealable : Sealable v) : Ascending (canonical number v) := by
  induction sealable with
  | null => exact .null
  | bool => exact .bool
  | number => exact .number
  | string => exact .string
  | @array items _ ih =>
    rw [canonical_array]
    refine .array fun item listed => ?_
    obtain ⟨v, here, rfl⟩ := List.mem_map.mp listed
    exact ih v here
  | @object members named _ ih =>
    have sorted := @sorted_perm number _ named
    rw [canonical_object]
    refine .object ?_ fun member listed => ?_
    · have order := List.pairwise_insertionSort nameLe (canonicalMembers number members)
      have names := sorted.map Prod.fst
      rw [List.map_map] at names
      have apart : (((canonicalMembers number members).insertionSort nameLe).map Prod.fst).Nodup :=
        names.nodup_iff.mpr named
      refine order.imp₂ (fun a b before other => ?_) (List.pairwise_map.mp apart)
      exact lt_of_le_of_ne before fun same => other (encodeUtf16_injective same)
    · obtain ⟨v, here, rfl⟩ := List.mem_map.mp (sorted.subset listed)
      exact ih v here

theorem canonical_alike (exact : Exact as_f64) (alike : Alike v w) (sealable : Sealable v) (also : Sealable w) :
    canonical (printed as_f64) v = canonical (printed as_f64) w := by
  induction alike with
  | null => rfl
  | bool => rfl
  | @number n k same =>
    cases sealable with
    | @number _ m whole =>
      have other : k.Whole m := ⟨same.symm.trans whole.1, whole.2⟩
      have text : (printed as_f64 n).text = (printed as_f64 k).text := by
        rw [printed_whole exact whole, printed_whole exact other]
      rw [canonical, canonical, Number.ext_text text]
  | string => rfl
  | @array items more length _ ih =>
    cases sealable with
    | array each =>
      cases also with
      | array every =>
        rw [canonical_array, canonical_array]
        congr 1
        apply List.ext_getElem?
        intro i
        rw [List.getElem?_map, List.getElem?_map]
        cases first : items[i]? with
        | none =>
          have past := List.getElem?_eq_none_iff.mp first
          rw [List.getElem?_eq_none_iff.mpr (length ▸ past)]
        | some v =>
          have within : i < more.length := by
            rw [← length]
            exact (List.getElem?_eq_some_iff.mp first).1
          have second : more[i]? = some more[i] := List.getElem?_eq_getElem within
          rw [second, Option.map_some, Option.map_some,
            ih i v _ first second (each v (List.mem_of_getElem? first)) (every _ (List.mem_of_getElem? second))]
  | @object members more names _ ih =>
    cases sealable with
    | object named each =>
      cases also with
      | object named' every =>
        refine canonical_object_congr (fun name => names.mem_iff) fun name listed => ?_
        obtain ⟨⟨_, v⟩, first, rfl⟩ := List.mem_map.mp listed
        obtain ⟨⟨_, w⟩, second, same⟩ := List.mem_map.mp (names.subset listed)
        dsimp only at same
        subst same
        rw [get_of_mem named first, get_of_mem named' second]
        exact ih _ v w first second (each _ first) (every _ second)

theorem canonical_iff (exact : Exact as_f64) (sealable : Sealable v) (also : Sealable w) :
    canonical_json (printed as_f64) v = canonical_json (printed as_f64) w ↔ Alike v w := by
  rw [canonical_json_inj]
  constructor
  · intro same
    have one := alike_canonical exact sealable
    rw [same] at one
    exact one.trans (alike_canonical exact also).symm
  · exact fun alike => canonical_alike exact alike sealable also

end

/-! ### Outside the strings -/

inductive Place where
  | outside | string | escaped
  deriving DecidableEq

def Place.next : Place → UInt8 → Place
  | .outside, b => if b = 34 then .string else .outside
  | .string, b => if b = 34 then .outside else if b = 92 then .escaped else .string
  | .escaped, _ => .string

def outside : Place → Bytes → Bytes
  | _, [] => []
  | place, b :: rest => (if place = .outside ∧ b ≠ 34 then [b] else []) ++ outside (place.next b) rest

theorem outside_append (place : Place) (a b : Bytes) :
    outside place (a ++ b) = outside place a ++ outside (a.foldl Place.next place) b := by
  induction a generalizing place with
  | nil => rfl
  | cons c a ih => rw [List.cons_append, outside, outside, ih, List.foldl_cons, List.append_assoc]

def Clean (text : Bytes) : Prop :=
  text.foldl Place.next .outside = .outside ∧ ∀ b ∈ outside .outside text, isSpace b = false

theorem Clean.append {a b : Bytes} (one : Clean a) (other : Clean b) : Clean (a ++ b) := by
  refine ⟨by rw [List.foldl_append, one.1, other.1], ?_⟩
  intro c listed
  rw [outside_append, one.1] at listed
  rcases List.mem_append.mp listed with listed | listed
  · exact one.2 c listed
  · exact other.2 c listed

theorem Clean.cons {b : UInt8} {text : Bytes} (token : isSpace b = false) (unquoted : b ≠ 34) (clean : Clean text) :
    Clean (b :: text) := by
  have one : Clean [b] := by
    refine ⟨?_, ?_⟩
    · show Place.next .outside b = .outside
      rw [Place.next, if_neg unquoted]
    · intro c listed
      rw [outside, if_pos ⟨rfl, unquoted⟩] at listed
      rw [List.mem_singleton.mp listed]
      exact token
  exact one.append clean

theorem escape_inside (b : UInt8) : (escape b).foldl Place.next .string = .string ∧ outside .string (escape b) = [] := by
  exact forall_byte (P := fun b => (escape b).foldl Place.next .string = .string ∧ outside .string (escape b) = [])
    (by decide +kernel) b

theorem body_inside (bytes : Bytes) :
    (bytes.flatMap escape).foldl Place.next .string = .string ∧ outside .string (bytes.flatMap escape) = [] := by
  induction bytes with
  | nil => exact ⟨rfl, rfl⟩
  | cons b bytes ih =>
    have one := escape_inside b
    rw [List.flatMap_cons, List.foldl_append, outside_append, one.1, one.2]
    exact ih

theorem writeString_clean (s : String) : Clean (writeString s) := by
  have body := body_inside (utf8 s)
  have ends : outside .string ((utf8 s).flatMap escape ++ [34]) = [] := by
    rw [outside_append, body.1, body.2]
    rfl
  refine ⟨?_, ?_⟩
  · rw [writeString, List.foldl_cons]
    show ((utf8 s).flatMap escape ++ [34]).foldl Place.next .string = .outside
    rw [List.foldl_append, body.1]
    rfl
  · intro b listed
    rw [writeString] at listed
    change b ∈ outside .string ((utf8 s).flatMap escape ++ [34]) at listed
    rw [ends] at listed
    cases listed

theorem clean_bytes {text : Bytes} (tokens : ∀ b ∈ text, isSpace b = false ∧ b ≠ 34) : Clean text := by
  induction text with
  | nil => exact ⟨rfl, by simp [outside]⟩
  | cons b text ih =>
    have first := tokens b List.mem_cons_self
    exact .cons first.1 first.2 (ih fun c listed => tokens c (List.mem_cons_of_mem _ listed))

theorem number_clean (n : Number) : Clean n.text := by
  apply clean_bytes
  intro b listed
  have member := n.text_bytes b listed
  have all : ∀ b : UInt8, isNumberByte b = true → isSpace b = false ∧ b ≠ 34 := forall_byte (by decide +kernel)
  exact all b member

mutual

theorem write_clean : (v : Value) → Clean (write v)
  | .null => by rw [write]; exact clean_bytes (by simp [isSpace])
  | .bool true => by rw [write]; exact clean_bytes (by simp [isSpace])
  | .bool false => by rw [write]; exact clean_bytes (by simp [isSpace])
  | .number n => by rw [write]; exact number_clean n
  | .string s => by rw [write]; exact writeString_clean s
  | .array items => by rw [write]; exact .cons (by decide) (by decide) (writeItems_clean items)
  | .object members => by rw [write]; exact .cons (by decide) (by decide) (writeMembers_clean members)

theorem writeItems_clean : (items : List Value) → Clean (writeItems items)
  | [] => by rw [writeItems]; exact clean_bytes (by simp [isSpace])
  | item :: more => by
    rw [writeItems_cons]
    refine (write_clean item).append ?_
    split
    · exact clean_bytes (by simp [isSpace])
    · exact .cons (by decide) (by decide) (writeItems_clean more)

theorem writeMembers_clean : (members : List (String × Value)) → Clean (writeMembers members)
  | [] => by rw [writeMembers]; exact clean_bytes (by simp [isSpace])
  | (name, value) :: more => by
    rw [writeMembers_cons]
    refine (writeString_clean name).append (.cons (by decide) (by decide) ((write_clean value).append ?_))
    split
    · exact clean_bytes (by simp [isSpace])
    · exact .cons (by decide) (by decide) (writeMembers_clean more)

end

/-- The canonical text of a sealable value reads back as the value with its members in order, is another's exactly where the two
are alike, and has no white space outside its strings. -/
theorem canonical_json_seals {as_f64 : Number → Double} (exact : Exact as_f64) {v : Value} (sealable : Sealable v) :
    (∃ form, Alike v form ∧ Ascending form ∧
      ∀ depth, form.depth ≤ depth → readDocument depth (canonical_json (printed as_f64) v) = some form) ∧
    (∀ w, Sealable w → (canonical_json (printed as_f64) v = canonical_json (printed as_f64) w ↔ Alike v w)) ∧
    ∀ b ∈ outside .outside (canonical_json (printed as_f64) v), isSpace b = false := by
  refine ⟨⟨canonical (printed as_f64) v, alike_canonical exact sealable, ascending_canonical sealable, ?_⟩,
    fun w also => canonical_iff exact sealable also, (write_clean _).2⟩
  intro depth deep
  rw [canonical_json, readDocument_write, if_pos deep]

def doubleOf (n : Number) : Double :=
  { zero := n.value = 0
    negative := n.value < 0
    rendered := (Rendering.plain (decimal n.value.num.natAbs) [48]).text }

theorem exact_doubleOf : Exact doubleOf where
  zero n m whole := by
    show decide (n.value = 0) = true ↔ m = 0
    rw [decide_eq_true_iff, whole.1, Int.cast_eq_zero]
  negative n m whole _ := by
    show decide (n.value < 0) = true ↔ m < 0
    rw [decide_eq_true_iff, whole.1, Int.cast_lt_zero]
  rendered n m whole _ := by
    show (Rendering.plain (decimal n.value.num.natAbs) [48]).text = _
    rw [whole.1, Rat.num_intCast]

def sample : Value := .object [("b", .number ⟨[49, 50], by decide⟩), ("a", .array [.null, .string "x y"])]

theorem sealable_sample : Sealable sample := by
  refine .object (by decide) fun member listed => ?_
  simp only [List.mem_cons, List.not_mem_nil, or_false] at listed
  rcases listed with rfl | rfl
  · refine @Sealable.number _ 12 ⟨?_, by decide⟩
    have whole : denoted [49, 50] = digitsValue [49, 50] := denoted_whole (by simp [isDigit])
    have value : digitsValue [49, 50] = 12 := by decide
    show denoted [49, 50] = ((12 : Int) : ℚ)
    rw [whole, value]
    norm_num
  · refine .array fun item listed => ?_
    simp only [List.mem_cons, List.not_mem_nil, or_false] at listed
    rcases listed with rfl | rfl
    · exact .null
    · exact .string

theorem canonical_json_seals_sample :
    (∃ form, Alike sample form ∧ Ascending form ∧
      ∀ depth, form.depth ≤ depth → readDocument depth (canonical_json (printed doubleOf) sample) = some form) ∧
    (∀ w, Sealable w → (canonical_json (printed doubleOf) sample = canonical_json (printed doubleOf) w ↔ Alike sample w)) ∧
    ∀ b ∈ outside .outside (canonical_json (printed doubleOf) sample), isSpace b = false :=
  canonical_json_seals exact_doubleOf sealable_sample

end CommonMeasure.Json
