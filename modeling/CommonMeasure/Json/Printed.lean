import CommonMeasure.Json.Ecma

/-!
# Renderings printed

The digits and the exponent taken from a rendering say its number, and what is pushed of them is a JSON number of that value in
the notation ECMAScript assigns to them.
-/

namespace CommonMeasure.Json

variable {digits text : Bytes} {n : Int} {r : Rendering}

/-- The number `0.<digits> * 10^n`. -/
def scaled (digits : Bytes) (n : Int) : ℚ := digitsValue digits * 10 ^ (n - digits.length)

/-! ### Reading the exponent -/

theorem parse_signed {exponent : Int} (low : -2 ^ 31 ≤ exponent) (high : exponent < 2 ^ 31) :
    parse_i32 (Rendering.signed exponent) = some exponent := by
  have digit := decimal_digits exponent.natAbs
  have some_ : decimal exponent.natAbs ≠ [] := by
    unfold decimal
    split
    · simp
    · rename_i nonzero
      simp [Nat.digits_ne_nil_iff_ne_zero.mpr nonzero]
  have all : (decimal exponent.natAbs).all isDigit = true := List.all_eq_true.mpr digit
  rw [Rendering.signed]
  split
  · rename_i negative
    have value : -(exponent.natAbs : Int) = exponent := by omega
    rw [parse_i32, if_pos (Or.inl rfl), if_pos ⟨some_, all⟩, if_pos rfl, digitsValue_decimal, value, within_i32,
      if_pos ⟨low, high⟩]
  · rename_i positive
    have value : (exponent.natAbs : Int) = exponent := by omega
    obtain ⟨b, rest, spelled⟩ := List.exists_cons_of_ne_nil some_
    have first : isDigit b = true := digit b (by rw [spelled]; exact List.mem_cons_self)
    have unsigned : ¬(b = 45 ∨ b = 43) := by
      rintro (rfl | rfl)
      · cases first
      · cases first
    rw [spelled] at all ⊢
    rw [parse_i32, if_neg unsigned, if_pos all, ← spelled, digitsValue_decimal, value, within_i32, if_pos ⟨low, high⟩]

theorem split_digits (some_ : ∀ c ∈ digits, isDigit c = true) :
    split_once isExponentMark digits = none ∧ split_once isPoint digits = none :=
  ⟨split_once_none fun c listed => (digit_unmarked (some_ c listed)).1,
    split_once_none fun c listed => (digit_unmarked (some_ c listed)).2⟩

structure Significant (core : Bytes) : Prop where
  digits : ∀ c ∈ core, isDigit c = true
  first : ∀ c ∈ core.head?, c ≠ 48
  last : ∀ c ∈ core.getLast?, c ≠ 48
  some_ : core ≠ []

theorem without_zeros_rendering {integer fraction : Bytes} (exponent : Int)
    (formed : ∀ c ∈ integer ++ fraction, isDigit c = true) (positive : ∃ c ∈ integer ++ fraction, c ≠ 48) :
    Significant (without_zeros (integer ++ fraction)).1 ∧
    scaled (without_zeros (integer ++ fraction)).1 (integer.length + exponent - (without_zeros (integer ++ fraction)).2) =
      digitsValue (integer ++ fraction) * 10 ^ (exponent - fraction.length) := by
  obtain ⟨trailing, trimmed⟩ := without_zeros_trimmed positive
  refine ⟨⟨?_, trimmed.first, trimmed.last, trimmed.some_⟩, ?_⟩
  · intro c listed
    apply formed c
    rw [trimmed.whole]
    exact List.mem_append_left _ (List.mem_append_right _ listed)
  · rw [trimmed.value, scaled, List.length_append]
    congr 2
    push_cast
    ring

theorem point_unmarked {before after : Bytes} (whole : ∀ c ∈ before, isDigit c = true) (part : ∀ c ∈ after, isDigit c = true) :
    ∀ c ∈ before ++ 46 :: after, isExponentMark c = false :=
  List.forall_mem_append.mpr ⟨fun c listed => (digit_unmarked (whole c listed)).1,
    List.forall_mem_cons.mpr ⟨rfl, fun c listed => (digit_unmarked (part c listed)).1⟩⟩

theorem shortest_digits_rendering (formed : r.Positive) :
    Significant (shortest_digits r.text).1 ∧ scaled (shortest_digits r.text).1 (shortest_digits r.text).2 = r.value := by
  cases r with
  | plain integer fraction =>
    have digit := formed.digits
    have whole : ∀ c ∈ integer, isDigit c = true := fun c listed => digit c (List.mem_append_left _ listed)
    have part : ∀ c ∈ fraction, isDigit c = true := fun c listed => digit c (List.mem_append_right _ listed)
    have unmarked : split_once isExponentMark (integer ++ 46 :: fraction) = none :=
      split_once_none (point_unmarked whole part)
    have cut : split_once isPoint (integer ++ 46 :: fraction) = some (integer, fraction) :=
      split_once_some (fun c listed => (digit_unmarked (whole c listed)).2) rfl
    have trimmed := without_zeros_rendering 0 digit formed.positive
    rw [zero_sub] at trimmed
    simp only [Rendering.text, shortest_digits, unmarked, cut, Option.getD_some]
    exact trimmed
  | scientific first fraction exponent =>
    have digit := formed.digits
    have range := formed.range first fraction exponent rfl
    have part : ∀ c ∈ fraction, isDigit c = true := fun c listed => digit c (List.mem_cons_of_mem _ listed)
    have one : isDigit first = true := digit first List.mem_cons_self
    obtain ⟨mantissa, mantissas⟩ : ∃ mantissa, first :: (if fraction = [] then [] else 46 :: fraction) = mantissa := ⟨_, rfl⟩
    have spelled : Rendering.text (.scientific first fraction exponent) = mantissa ++ 101 :: Rendering.signed exponent := by
      rw [← mantissas]
      rfl
    have unmarked : ∀ c ∈ mantissa, isExponentMark c = false := by
      intro c listed
      rw [← mantissas] at listed
      rcases List.mem_cons.mp listed with rfl | listed
      · exact (digit_unmarked one).1
      · split at listed
        · cases listed
        · rcases List.mem_cons.mp listed with rfl | listed
          · rfl
          · exact (digit_unmarked (part c listed)).1
    have cut : (split_once isPoint mantissa).getD (mantissa, []) = ([first], fraction) := by
      rw [← mantissas]
      split
      · rename_i empty
        subst empty
        rw [split_once_none]
        · rfl
        · intro c listed
          obtain rfl := List.mem_singleton.mp listed
          exact (digit_unmarked one).2
      · have found : split_once isPoint ([first] ++ 46 :: fraction) = some ([first], fraction) := by
          apply split_once_some _ rfl
          intro c listed
          obtain rfl := List.mem_singleton.mp listed
          exact (digit_unmarked one).2
        exact congrArg (fun found => Option.getD found _) found
    have trimmed := @without_zeros_rendering [first] fraction exponent digit formed.positive
    have parted : split_once isExponentMark (mantissa ++ 101 :: Rendering.signed exponent) =
        some (mantissa, Rendering.signed exponent) := split_once_some unmarked rfl
    have read : parse_i32 (Rendering.signed exponent) = some exponent := parse_signed (by omega) (by omega)
    rw [spelled]
    simp only [shortest_digits, parted, read, Option.getD_some, cut]
    exact trimmed

theorem denoted_scientific {before after power : Bytes} (whole : ∀ c ∈ before, isDigit c = true)
    (part : ∀ c ∈ after, isDigit c = true) :
    denoted (before ++ 46 :: (after ++ 101 :: power)) =
      digitsValue (before ++ after) * 10 ^ (signedValue power - after.length) := by
  have parted : split_once isExponentMark ((before ++ 46 :: after) ++ 101 :: power) = some (before ++ 46 :: after, power) :=
    split_once_some (point_unmarked whole part) rfl
  have cut : split_once isPoint (before ++ 46 :: after) = some (before, after) :=
    split_once_some (fun c listed => (digit_unmarked (whole c listed)).2) rfl
  rw [List.append_assoc, List.cons_append] at parted
  simp only [denoted, parted, cut, Option.getD_some]

theorem denoted_power {before power : Bytes} (whole : ∀ c ∈ before, isDigit c = true) :
    denoted (before ++ 101 :: power) = digitsValue before * 10 ^ signedValue power := by
  have parted : split_once isExponentMark (before ++ 101 :: power) = some (before, power) :=
    split_once_some (fun c listed => (digit_unmarked (whole c listed)).1) rfl
  simp [denoted, parted, (split_digits whole).2]

theorem denoted_fraction {before after : Bytes} (whole : ∀ c ∈ before, isDigit c = true)
    (part : ∀ c ∈ after, isDigit c = true) :
    denoted (before ++ 46 :: after) = digitsValue (before ++ after) * 10 ^ (-(after.length : Int)) := by
  have unmarked : split_once isExponentMark (before ++ 46 :: after) = none :=
    split_once_none (point_unmarked whole part)
  have cut : split_once isPoint (before ++ 46 :: after) = some (before, after) :=
    split_once_some (fun c listed => (digit_unmarked (whole c listed)).2) rfl
  simp [denoted, unmarked, cut, signedValue]

theorem denoted_whole (whole : ∀ c ∈ text, isDigit c = true) : denoted text = digitsValue text := by
  simp [denoted, (split_digits whole).1, (split_digits whole).2, signedValue]

theorem signedValue_power (exponent : Int) :
    signedValue ((if exponent < 0 then 45 else 43) :: decimal exponent.natAbs) = exponent := by
  split
  · rw [signedValue, if_pos rfl, digitsValue_decimal]
    omega
  · rw [signedValue, if_neg (by decide), if_pos rfl, digitsValue_decimal]
    omega

theorem Notation.denotes (formed : Significant digits) (notated : Notation digits n text) : denoted text = scaled digits n := by
  have digit := formed.digits
  cases notated with
  | @whole count length _ =>
    have all : ∀ c ∈ digits ++ zeros count, isDigit c = true := List.forall_mem_append.mpr ⟨digit, zeros_digits count⟩
    have exponent : n - (digits.length : Int) = (count : Nat) := by omega
    rw [denoted_whole all, digitsValue_append, scaled, exponent, zpow_natCast, zeros_length, digitsValue_zeros]
    push_cast
    ring
  | @fraction before after parts length _ _ _ =>
    subst parts
    have exponent : n - ((before ++ after).length : Int) = -(after.length : Int) := by
      rw [List.length_append]
      push_cast
      omega
    rw [denoted_fraction (fun c listed => digit c (List.mem_append_left _ listed))
      (fun c listed => digit c (List.mem_append_right _ listed)), scaled, exponent]
  | @leading count _ length =>
    have all : ∀ c ∈ zeros count ++ digits, isDigit c = true := List.forall_mem_append.mpr ⟨zeros_digits count, digit⟩
    have zero : ∀ c ∈ [48], isDigit c = true := List.forall_mem_singleton.mpr rfl
    have value : digitsValue ([48] ++ (zeros count ++ digits)) = digitsValue digits := by
      have first : digitsValue [48] = 0 := by decide
      rw [digitsValue_append, digitsValue_append, digitsValue_zeros, first]
      omega
    have exponent : n - (digits.length : Int) = -((zeros count ++ digits).length : Int) := by
      rw [List.length_append, zeros_length]
      push_cast
      omega
    have denoted_ := denoted_fraction zero all
    rw [value] at denoted_
    rw [scaled, exponent]
    exact denoted_
  | @single d exponent one _ power =>
    subst one
    have denoted_ := @denoted_power [d] ((if exponent < 0 then 45 else 43) :: decimal exponent.natAbs) digit
    rw [signedValue_power, power] at denoted_
    rw [power] at *
    exact denoted_
  | @scientific d others exponent more _ _ power =>
    subst more
    have denoted_ := @denoted_scientific [d] others ((if exponent < 0 then 45 else 43) :: decimal exponent.natAbs)
      (fun c listed => digit c (by rw [List.mem_singleton.mp listed]; exact List.mem_cons_self))
      fun c listed => digit c (List.mem_cons_of_mem _ listed)
    have shift : exponent - (others.length : Int) = n - ((d :: others).length : Int) := by
      rw [List.length_cons]
      push_cast
      omega
    rw [signedValue_power, shift] at denoted_
    exact denoted_

theorem notate_notation (formed : Significant digits) (n : Int) :
    ∃ text, notate digits n = some text ∧ Notation digits n text := by
  have positive : 0 < digits.length := List.length_pos_iff.mpr formed.some_
  rw [notate]
  dsimp only
  split
  · rename_i fits
    exact ⟨_, rfl, .whole (by omega) fits.2⟩
  rename_i long
  split
  · rename_i inside
    have within : n.toNat ≤ digits.length := by omega
    rw [split_at, if_pos within]
    refine ⟨_, rfl, .fraction (List.take_append_drop _ _).symm ?_ ?_ ?_ inside.2⟩
    · rw [List.length_take]
      omega
    · simp only [ne_eq, List.take_eq_nil_iff, not_or]
      exact ⟨by omega, formed.some_⟩
    · simp only [ne_eq, List.drop_eq_nil_iff]
      omega
  rename_i outside
  split
  · rename_i low
    exact ⟨_, rfl, .leading low.1 (by omega)⟩
  rename_i far
  have apart : n ≤ -6 ∨ 21 < n := by omega
  have sign : (if n ≤ 0 then (45 : UInt8) else 43) = if n - 1 < 0 then 45 else 43 := by
    by_cases negative : n ≤ 0
    · rw [if_pos negative, if_pos (by omega)]
    · rw [if_neg negative, if_neg (by omega)]
  obtain ⟨d, others, spelled⟩ := List.exists_cons_of_ne_nil formed.some_
  subst spelled
  have one : 1 ≤ (d :: others).length := positive
  rw [split_at, if_pos one, sign]
  by_cases more : others = []
  · subst more
    exact ⟨_, rfl, .single rfl apart rfl⟩
  · have several : (1 : Int) < ((d :: others).length : Int) := by
      have := List.length_pos_iff.mpr more
      rw [List.length_cons]
      push_cast
      omega
    simp only [Option.map_some, if_pos several]
    exact ⟨_, rfl, .scientific rfl more apart rfl⟩

theorem NumberState.run_append (state : NumberState) (a b : Bytes) :
    state.run (a ++ b) = (state.run a).bind fun next => next.run b := by
  induction a generalizing state with
  | nil => rfl
  | cons c a ih =>
    rw [List.cons_append, NumberState.run, NumberState.run]
    cases state.step c with
    | none => rfl
    | some next => exact ih next

theorem NumberState.run_loop {state next : NumberState} {a : Bytes} (some_ : a ≠ []) (digits : ∀ c ∈ a, isDigit c = true)
    (enters : ∀ c, isDigit c = true → state.step c = some next) (stays : ∀ c, isDigit c = true → next.step c = some next) :
    state.run a = some next := by
  have loop : ∀ a : Bytes, (∀ c ∈ a, isDigit c = true) → next.run a = some next := by
    intro a
    induction a with
    | nil => exact fun _ => rfl
    | cons c a ih =>
      intro digits
      rw [NumberState.run, stays c (digits c List.mem_cons_self), Option.bind_some]
      exact ih fun d listed => digits d (List.mem_cons_of_mem _ listed)
  obtain ⟨c, rest, rfl⟩ := List.exists_cons_of_ne_nil some_
  rw [NumberState.run, enters c (digits c List.mem_cons_self), Option.bind_some]
  exact loop rest fun d listed => digits d (List.mem_cons_of_mem _ listed)

theorem run_digits {a : Bytes} (some_ : a ≠ []) (digits : ∀ c ∈ a, isDigit c = true) (first : ∀ c ∈ a.head?, c ≠ 48) :
    NumberState.start.run a = some .whole := by
  obtain ⟨c, rest, rfl⟩ := List.exists_cons_of_ne_nil some_
  have digit := digits c List.mem_cons_self
  have unsigned : c ≠ 45 := by
    rintro rfl
    cases digit
  have other : c ≠ 48 := first c rfl
  rw [NumberState.run, NumberState.step, if_neg unsigned, if_neg other, if_pos digit, Option.bind_some]
  exact NumberState.run_whole fun d listed => digits d (List.mem_cons_of_mem _ listed)

theorem run_point {a : Bytes} (some_ : a ≠ []) (digits : ∀ c ∈ a, isDigit c = true) :
    NumberState.point.run a = some .fraction := by
  apply NumberState.run_loop some_ digits
  · intro c digit
    rw [NumberState.step, if_pos digit]
  · intro c digit
    rw [NumberState.step, if_pos digit]

theorem run_exponent (exponent : Int) :
    NumberState.exponent.run ((if exponent < 0 then 45 else 43) :: decimal exponent.natAbs) = some .power := by
  have some_ : decimal exponent.natAbs ≠ [] := by
    unfold decimal
    split
    · simp
    · rename_i nonzero
      simp [Nat.digits_ne_nil_iff_ne_zero.mpr nonzero]
  have sign : NumberState.exponent.step (if exponent < 0 then 45 else 43) = some .sign := by
    split
    all_goals rfl
  rw [NumberState.run, sign, Option.bind_some]
  apply NumberState.run_loop some_ (decimal_digits _)
  · intro c digit
    rw [NumberState.step, if_pos digit]
  · intro c digit
    rw [NumberState.step, if_pos digit]

theorem number_bytes {a : Bytes} (digits : ∀ c ∈ a, isDigit c = true) : a.all isNumberByte = true := by
  rw [List.all_eq_true]
  intro c listed
  simp [isNumberByte, digits c listed]

theorem power_bytes (exponent : Int) :
    ((101 : UInt8) :: (if exponent < 0 then 45 else 43) :: decimal exponent.natAbs).all isNumberByte = true := by
  have mark : isNumberByte 101 = true := by decide
  have sign : isNumberByte (if exponent < 0 then 45 else 43) = true := by
    split
    all_goals decide
  rw [List.all_cons, List.all_cons, mark, sign, number_bytes (decimal_digits _)]
  rfl

theorem Notation.isNumber (formed : Significant digits) (notated : Notation digits n text) : isNumber text = true := by
  have digit := formed.digits
  have bytes := number_bytes digit
  have point : isNumberByte 46 = true := by decide
  rw [Json.isNumber, Bool.and_eq_true]
  cases notated with
  | @whole count _ _ =>
    have all : ∀ c ∈ digits ++ zeros count, isDigit c = true := List.forall_mem_append.mpr ⟨digit, zeros_digits count⟩
    refine ⟨number_bytes all, ?_⟩
    rw [run_digits (by simp [formed.some_]) all]
    · rfl
    · rw [List.head?_append_of_ne_nil _ formed.some_]
      exact formed.first
  | @fraction before after parts _ before_some after_some _ =>
    subst parts
    have whole : ∀ c ∈ before, isDigit c = true := fun c listed => digit c (List.mem_append_left _ listed)
    have part : ∀ c ∈ after, isDigit c = true := fun c listed => digit c (List.mem_append_right _ listed)
    have first := formed.first
    rw [List.head?_append_of_ne_nil _ before_some] at first
    refine ⟨?_, ?_⟩
    · rw [List.all_append, List.all_cons, number_bytes whole, point, number_bytes part]
      rfl
    · rw [NumberState.run_append, run_digits before_some whole first, Option.bind_some]
      show (NumberState.point.run after).any _ = true
      rw [run_point after_some part]
      rfl
  | @leading count _ _ =>
    have all : ∀ c ∈ zeros count ++ digits, isDigit c = true := List.forall_mem_append.mpr ⟨zeros_digits count, digit⟩
    refine ⟨?_, ?_⟩
    · have zero : isNumberByte 48 = true := by decide
      rw [List.all_cons, List.all_cons, zero, point, number_bytes all]
      rfl
    · show (NumberState.point.run (zeros count ++ digits)).any _ = true
      rw [run_point (by simp [formed.some_]) all]
      rfl
  | @single d exponent one _ _ =>
    subst one
    refine ⟨?_, ?_⟩
    · have all : ([d] ++ 101 :: (if exponent < 0 then 45 else 43) :: decimal exponent.natAbs).all isNumberByte = true := by
        rw [List.all_append, bytes, power_bytes]
        rfl
      exact all
    · have run := NumberState.run_append .start [d] (101 :: (if exponent < 0 then 45 else 43) :: decimal exponent.natAbs)
      rw [run_digits formed.some_ digit formed.first, Option.bind_some] at run
      show (NumberState.start.run ([d] ++ _)).any _ = true
      rw [run]
      show (NumberState.exponent.run _).any _ = true
      rw [run_exponent]
      rfl
  | @scientific d others exponent more some_ _ _ =>
    subst more
    have one : ∀ c ∈ [d], isDigit c = true := fun c listed =>
      digit c (by rw [List.mem_singleton.mp listed]; exact List.mem_cons_self)
    have part : ∀ c ∈ others, isDigit c = true := fun c listed => digit c (List.mem_cons_of_mem _ listed)
    refine ⟨?_, ?_⟩
    · rw [List.all_cons, List.all_cons, List.all_append, power_bytes, number_bytes part, point]
      have first := number_bytes one
      rw [List.all_cons, List.all_nil, Bool.and_true] at first
      rw [first]
      rfl
    · have run := NumberState.run_append .start [d]
        (46 :: (others ++ 101 :: (if exponent < 0 then 45 else 43) :: decimal exponent.natAbs))
      rw [run_digits (List.cons_ne_nil _ _) one formed.first, Option.bind_some] at run
      have later := NumberState.run_append .point others (101 :: (if exponent < 0 then 45 else 43) :: decimal exponent.natAbs)
      rw [run_point some_ part, Option.bind_some] at later
      show (NumberState.start.run ([d] ++ _)).any _ = true
      rw [run]
      show (NumberState.point.run _).any _ = true
      rw [later]
      show (NumberState.exponent.run _).any _ = true
      rw [run_exponent]
      rfl

/-! ### Every rendering -/

/-- The digits taken from a rendering and their exponent say its number, and what is written of them is that number's text. -/
theorem renderings_printed (r : Rendering) (formed : r.Positive) : ∃ digits n text,
    shortest_digits r.text = (digits, n) ∧ Significant digits ∧ scaled digits n = r.value ∧
    notate digits n = some text ∧ Notation digits n text ∧ denoted text = r.value ∧ isNumber text = true ∧
    ∀ negative, write_number ⟨false, negative, r.text⟩ = some (if negative then 45 :: text else text) := by
  obtain ⟨significant, value⟩ := shortest_digits_rendering formed
  obtain ⟨digits, n, cut⟩ : ∃ digits n, shortest_digits r.text = (digits, n) := ⟨_, _, rfl⟩
  rw [cut] at significant value
  obtain ⟨text, pushed, notated⟩ := notate_notation significant n
  have denotes : denoted text = r.value := (notated.denotes significant).trans value
  refine ⟨digits, n, text, cut, significant, value, pushed, notated, denotes, notated.isNumber significant, ?_⟩
  intro negative
  simp only [write_number, Bool.false_eq_true, if_false, cut, pushed, Option.map_some]

/-- `1.5e-7`. -/
theorem renderings_printed_small : ∃ digits n text,
    shortest_digits (Rendering.scientific 49 [53] (-7)).text = (digits, n) ∧ Significant digits ∧
    scaled digits n = (Rendering.scientific 49 [53] (-7)).value ∧ notate digits n = some text ∧ Notation digits n text ∧
    denoted text = (Rendering.scientific 49 [53] (-7)).value ∧ isNumber text = true ∧
    ∀ negative, write_number ⟨false, negative, (Rendering.scientific 49 [53] (-7)).text⟩ =
      some (if negative then 45 :: text else text) :=
  renderings_printed (.scientific 49 [53] (-7))
    { digits := by simp [Rendering.digits, isDigit]
      positive := ⟨49, by decide, by decide⟩
      range := by
        intro first fraction exponent same
        cases same
        decide }

end CommonMeasure.Json
