import CommonMeasure.Json.Text
import Mathlib.Algebra.Field.Rat
import Mathlib.Data.List.DropRight
import Mathlib.Tactic.FieldSimp
import Mathlib.Tactic.Ring

namespace CommonMeasure.Json

/-- `str::split_once`, at the first byte of the kind. -/
def split_once (separator : UInt8 → Bool) (text : Bytes) : Option (Bytes × Bytes) :=
  match text.dropWhile fun b => !separator b with
  | [] => none
  | _ :: after => some (text.takeWhile fun b => !separator b, after)

def within_i32 (n : Int) : Option Int := if -2 ^ 31 ≤ n ∧ n < 2 ^ 31 then some n else none

/-- `str::parse::<i32>`. -/
def parse_i32 : Bytes → Option Int
  | [] => none
  | b :: rest =>
    if b = 45 ∨ b = 43 then
      if rest ≠ [] ∧ rest.all isDigit then within_i32 (if b = 45 then -(digitsValue rest : Int) else digitsValue rest) else none
    else if (b :: rest).all isDigit then within_i32 (digitsValue (b :: rest)) else none

def isZeroDigit (b : UInt8) : Bool := b = 48

def isExponentMark (b : UInt8) : Bool := b = 101 || b = 69

def isPoint (b : UInt8) : Bool := b = 46

def without_zeros (digits : Bytes) : Bytes × Nat :=
  let leading := digits.length - (digits.dropWhile isZeroDigit).length
  let digits := digits.drop leading
  let trailing := digits.length - (digits.rdropWhile isZeroDigit).length
  (digits.take (digits.length - trailing), leading)

/-- The significant digits of a rendering and the exponent for which the value is `0.<digits> * 10^n`. -/
def shortest_digits (rendered : Bytes) : Bytes × Int :=
  let (mantissa, exponent) := match split_once isExponentMark rendered with
    | some (mantissa, exponent) => (mantissa, (parse_i32 exponent).getD 0)
    | none => (rendered, 0)
  let (integer, fraction) := (split_once isPoint mantissa).getD (mantissa, [])
  let (digits, leading) := without_zeros (integer ++ fraction)
  (digits, integer.length + exponent - leading)

/-- `&text[..at]` and `&text[at..]`: nothing where the slice is out of range. -/
def split_at (text : Bytes) (at_ : Nat) : Option (Bytes × Bytes) :=
  if at_ ≤ text.length then some (text.take at_, text.drop at_) else none

def zeros (count : Nat) : Bytes := List.replicate count 48

def notate (digits : Bytes) (n : Int) : Option Bytes :=
  let k : Int := digits.length
  if k ≤ n ∧ n ≤ 21 then some (digits ++ zeros (n - k).toNat)
  else if 0 < n ∧ n ≤ 21 then (split_at digits n.toNat).map fun (whole, part) => whole ++ 46 :: part
  else if -6 < n ∧ n ≤ 0 then some (48 :: 46 :: (zeros (-n).toNat ++ digits))
  else (split_at digits 1).map fun (first, others) =>
    first ++ (if 1 < k then 46 :: others else []) ++ 101 :: (if n ≤ 0 then 45 else 43) :: decimal (n - 1).natAbs

/-- A double as the writer sees it: whether it is zero, whether it is below zero, and `ryu`'s rendering of its size. -/
structure Double where
  zero : Bool
  negative : Bool
  rendered : Bytes

def write_number (x : Double) : Option Bytes :=
  if x.zero then some [48]
  else
    let (digits, n) := shortest_digits x.rendered
    (notate digits n).map fun text => if x.negative then 45 :: text else text

/-- The shapes `ryu` writes: `ddd.ddd`, and `d.ddde<exp>`, or `de<exp>` where there is no fraction. -/
inductive Rendering where
  | plain (integer fraction : Bytes)
  | scientific (first : UInt8) (fraction : Bytes) (exponent : Int)

namespace Rendering

def digits : Rendering → Bytes
  | .plain integer fraction => integer ++ fraction
  | .scientific first fraction _ => first :: fraction

def exponent : Rendering → Int
  | .plain _ fraction => -fraction.length
  | .scientific _ fraction exponent => exponent - fraction.length

def signed (n : Int) : Bytes := if n < 0 then 45 :: decimal n.natAbs else decimal n.natAbs

def text : Rendering → Bytes
  | .plain integer fraction => integer ++ 46 :: fraction
  | .scientific first fraction exponent =>
    first :: ((if fraction = [] then [] else 46 :: fraction) ++ 101 :: signed exponent)

def value (r : Rendering) : ℚ := digitsValue r.digits * 10 ^ r.exponent

structure Positive (r : Rendering) : Prop where
  digits : ∀ b ∈ r.digits, isDigit b = true
  positive : ∃ b ∈ r.digits, b ≠ 48
  range : ∀ first fraction exponent, r = .scientific first fraction exponent → -324 ≤ exponent ∧ exponent ≤ 308

end Rendering

def signedValue : Bytes → Int
  | [] => 0
  | b :: rest => if b = 45 then -digitsValue rest else if b = 43 then digitsValue rest else digitsValue (b :: rest)

/-- The number a decimal text denotes, sign apart: its digits, scaled by what stands behind the point and by the exponent. -/
def denoted (text : Bytes) : ℚ :=
  let (mantissa, exponent) := (split_once isExponentMark text).getD (text, [])
  let (integer, fraction) := (split_once isPoint mantissa).getD (mantissa, [])
  digitsValue (integer ++ fraction) * 10 ^ (signedValue exponent - fraction.length)

inductive Notation (digits : Bytes) (n : Int) : Bytes → Prop
  | whole {count} : (digits.length : Int) + (count : Nat) = n → n ≤ 21 → Notation digits n (digits ++ zeros count)
  | fraction {before after} : digits = before ++ after → (before.length : Int) = n → before ≠ [] → after ≠ [] → n ≤ 21 →
    Notation digits n (before ++ 46 :: after)
  | leading {count} : -6 < n → n + (count : Nat) = 0 → Notation digits n (48 :: 46 :: (zeros count ++ digits))
  | single {d exponent} : digits = [d] → n ≤ -6 ∨ 21 < n → exponent = n - 1 →
    Notation digits n (d :: 101 :: (if exponent < 0 then 45 else 43) :: decimal exponent.natAbs)
  | scientific {d others exponent} : digits = d :: others → others ≠ [] → n ≤ -6 ∨ 21 < n → exponent = n - 1 →
    Notation digits n (d :: 46 :: (others ++ 101 :: (if exponent < 0 then 45 else 43) :: decimal exponent.natAbs))

variable {a b text rest digits : Bytes} {separator : UInt8 → Bool}

theorem split_once_some {mark : UInt8} (free : ∀ c ∈ a, separator c = false) (marks : separator mark = true) :
    split_once separator (a ++ mark :: rest) = some (a, rest) := by
  have before : ∀ c ∈ a, (!separator c) = true := by
    intro c listed
    simp [free c listed]
  have after : (mark :: rest).dropWhile (fun c => !separator c) = mark :: rest := by simp [marks]
  have none_ : (mark :: rest).takeWhile (fun c => !separator c) = [] := by simp [marks]
  rw [split_once, List.dropWhile_append_of_pos before, after, List.takeWhile_append_of_pos before, none_, List.append_nil]

theorem split_once_none (free : ∀ c ∈ a, separator c = false) : split_once separator a = none := by
  have gone : a.dropWhile (fun c => !separator c) = [] := by
    rw [List.dropWhile_eq_nil_iff]
    intro c listed
    simp [free c listed]
  rw [split_once, gone]

theorem digit_unmarked {c : UInt8} (digit : isDigit c = true) : isExponentMark c = false ∧ isPoint c = false := by
  have all : ∀ c : UInt8, isDigit c = true → isExponentMark c = false ∧ isPoint c = false :=
    forall_byte (by decide +kernel)
  exact all c digit

theorem digitsValue_append (a b : Bytes) : digitsValue (a ++ b) = digitsValue a * 10 ^ b.length + digitsValue b := by
  unfold digitsValue
  rw [List.reverse_append, List.map_append, Nat.ofDigits_append, List.length_map, List.length_reverse]
  ring

@[simp] theorem zeros_length (count : Nat) : (zeros count).length = count := List.length_replicate

@[simp] theorem digitsValue_zeros (count : Nat) : digitsValue (zeros count) = 0 := by
  induction count with
  | zero => rfl
  | succ count ih =>
    have first : zeros (count + 1) = [48] ++ zeros count := rfl
    have zero : digitsValue [48] = 0 := by decide
    rw [first, digitsValue_append, ih, zero, Nat.zero_mul]

theorem zeros_digits (count : Nat) : ∀ c ∈ zeros count, isDigit c = true := by
  intro c listed
  rw [List.eq_of_mem_replicate listed]
  decide

theorem eq_zeros (same : ∀ c ∈ a, isZeroDigit c = true) : a = zeros a.length := by
  apply List.eq_replicate_iff.mpr ⟨rfl, fun c listed => ?_⟩
  simpa [isZeroDigit] using same c listed

structure Trimmed (digits core : Bytes) (leading trailing : Nat) : Prop where
  whole : digits = zeros leading ++ core ++ zeros trailing
  first : ∀ c ∈ core.head?, c ≠ 48
  last : ∀ c ∈ core.getLast?, c ≠ 48
  some_ : core ≠ []

theorem takeWhile_zeros (digits : Bytes) : digits.takeWhile isZeroDigit = zeros (digits.takeWhile isZeroDigit).length :=
  eq_zeros fun _ listed => List.mem_takeWhile_imp listed

theorem without_zeros_trimmed (positive : ∃ c ∈ digits, c ≠ 48) :
    ∃ trailing, Trimmed digits (without_zeros digits).1 (without_zeros digits).2 trailing := by
  dsimp only [without_zeros]
  obtain ⟨lead, leads⟩ : ∃ lead, digits.takeWhile isZeroDigit = lead := ⟨_, rfl⟩
  obtain ⟨left, lefts⟩ : ∃ left, digits.dropWhile isZeroDigit = left := ⟨_, rfl⟩
  have whole : digits = lead ++ left := by rw [← leads, ← lefts, List.takeWhile_append_dropWhile]
  have zero : lead = zeros lead.length := by
    rw [← leads]
    exact takeWhile_zeros digits
  have length : digits.length - left.length = lead.length := by
    rw [whole, List.length_append]
    omega
  have dropped : digits.drop lead.length = left := by
    rw [whole, List.drop_left]
  rw [lefts, length, dropped]
  -- The zeros at the end are those at the beginning of the reverse.
  obtain ⟨core, cores⟩ : ∃ core, left.rdropWhile isZeroDigit = core := ⟨_, rfl⟩
  obtain ⟨trail, trails⟩ : ∃ trail, (left.reverse.takeWhile isZeroDigit).reverse = trail := ⟨_, rfl⟩
  have parts : left = core ++ trail := by
    rw [← cores, ← trails, List.rdropWhile, ← List.reverse_append, List.takeWhile_append_dropWhile, List.reverse_reverse]
  have zero' : trail = zeros trail.length := by
    apply eq_zeros
    intro c listed
    rw [← trails, List.mem_reverse] at listed
    exact List.mem_takeWhile_imp listed
  have kept : left.take (left.length - (left.length - core.length)) = core := by
    have count : left.length - (left.length - core.length) = core.length := by
      rw [parts, List.length_append]
      omega
    rw [count, parts, List.take_left]
  rw [cores, kept]
  obtain ⟨c, listed, other⟩ := positive
  have some_ : core ≠ [] := by
    rintro rfl
    rw [whole, parts, List.nil_append, zero, zero'] at listed
    rcases List.mem_append.mp listed with listed | listed
    · exact other (List.eq_of_mem_replicate listed)
    · exact other (List.eq_of_mem_replicate listed)
  refine ⟨trail.length, ?_, ?_, ?_, some_⟩
  · rw [← zero, ← zero', List.append_assoc, ← parts, ← whole]
  · intro c first
    have head := List.head?_dropWhile_not isZeroDigit digits
    rw [lefts, parts, List.head?_append_of_ne_nil _ some_, Option.mem_def.mp first] at head
    simpa [isZeroDigit] using head
  · intro c last
    obtain ⟨before, rfl⟩ := List.getLast?_eq_some_iff.mp (Option.mem_def.mp last)
    have ends := List.rdropWhile_last_not isZeroDigit left (by rw [cores]; exact some_)
    simp only [cores, List.getLast_append_singleton] at ends
    simpa [isZeroDigit] using ends

theorem Trimmed.value {core : Bytes} {leading trailing : Nat} (trimmed : Trimmed digits core leading trailing)
    (exponent : Int) :
    (digitsValue digits : ℚ) * 10 ^ exponent =
      digitsValue core * 10 ^ ((digits.length : Int) + exponent - leading - core.length) := by
  have value : digitsValue digits = digitsValue core * 10 ^ trailing := by
    rw [trimmed.whole, digitsValue_append, digitsValue_append]
    simp
  have length := congrArg List.length trimmed.whole
  simp only [List.length_append, zeros_length] at length
  have shift : (digits.length : Int) + exponent - leading - core.length = trailing + exponent := by
    rw [length]
    push_cast
    ring
  rw [value, shift, zpow_add₀ (by norm_num), zpow_natCast]
  push_cast
  ring

end CommonMeasure.Json
