import CommonMeasure.Processor.Found

namespace CommonMeasure.Processor

open Http (isDigit isAlphabetic)

def Gap (gap : Bytes) : Prop := gap = [] ∨ gap = [32]

inductive Pairs : Nat → Bytes → Prop
  | none : Pairs 0 []
  | pair {gap rest : Bytes} {a b : UInt8} {pairs : Nat} :
    Gap gap → isDigit a = true → isDigit b = true → Pairs pairs rest → Pairs (pairs + 1) (gap ++ a :: b :: rest)

structure NiForm (number : Bytes) : Prop where
  parts : ∃ first second middle gap last, number = first :: second :: (middle ++ (gap ++ [last])) ∧
    valid_ni_prefix first second = true ∧ Pairs 3 middle ∧ Gap gap ∧ 65 ≤ last ∧ last ≤ 68

structure NiAt (before number after : Bytes) : Prop where
  form : NiForm number
  opens : follows_alphanumeric before = false
  ends : precedes_alphanumeric after = false

def niFinding (before number : Bytes) : PiiFinding := ⟨.NationalInsuranceNumber, before.length, before.length + number.length⟩

theorem Pairs.length {pairs : Nat} {bytes : Bytes} (held : Pairs pairs bytes) : 2 * pairs ≤ bytes.length := by
  induction held with
  | none => exact Nat.le_refl _
  | pair _ _ _ _ ih =>
    simp only [List.length_append, List.length_cons]
    omega

def isPart (b : UInt8) : Bool := isDigit b || isParenthesis b

inductive Dialled : Bytes → Prop
  | one {d : UInt8} : isDigit d = true → Dialled [d]
  | digit {d : UInt8} {rest : Bytes} : isDigit d = true → Dialled rest → Dialled (d :: rest)
  | join {s b : UInt8} {rest : Bytes} : isJoin s = true → isPart b = true → Dialled (b :: rest) → Dialled (s :: b :: rest)

/-- A plus sign and as many digits as a number has, which no letter or digit precedes and which go no further. -/
structure PhoneAt (before number after : Bytes) : Prop where
  dialled : Dialled number
  count : 8 ≤ (number.filter isDigit).length ∧ (number.filter isDigit).length ≤ 15
  opens : follows_alphanumeric before = false
  widest : ∀ right back, after = right ++ back → Dialled (number ++ right) → right = []

def phoneFinding (before number : Bytes) : PiiFinding :=
  ⟨.InternationalPhoneNumber, before.length, before.length + 1 + number.length⟩

theorem Dialled.append {a b : Bytes} (one : Dialled a) (other : Dialled b) : Dialled (a ++ b) := by
  induction one with
  | one digit => exact .digit digit other
  | digit digit _ ih => exact .digit digit ih
  | join join part _ ih => exact .join join part ih

theorem Dialled.last {number : Bytes} (dialled : Dialled number) : ∃ front d, number = front ++ [d] ∧ isDigit d = true := by
  induction dialled with
  | @one d digit => exact ⟨[], d, rfl, digit⟩
  | @digit d _ _ _ ih =>
    obtain ⟨front, last, is, digit⟩ := ih
    exact ⟨d :: front, last, by rw [is]; rfl, digit⟩
  | @join s _ _ _ _ _ ih =>
    obtain ⟨front, last, is, digit⟩ := ih
    exact ⟨s :: front, last, by rw [is]; rfl, digit⟩

end CommonMeasure.Processor
