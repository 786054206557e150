import CommonMeasure.Processor.Pii

/-!
# Addresses and cards

Each kind of identifier is a form of its own.
-/

namespace CommonMeasure.Processor

open Http (isDigit isAlphabetic)

/-! ### Cuts and runs -/

def DomainForm (domain : Bytes) : Prop :=
  domain.all is_domain_part = true ∧ 2 ≤ (domain.splitOn 46).length ∧ (∀ label ∈ domain.splitOn 46, label ≠ []) ∧
    ∃ top, (domain.splitOn 46).getLast? = some top ∧ 2 ≤ top.length ∧ top.all isAlphabetic = true

/-- A local part that reaches as far back as it can, an at sign, and a domain no letter or digit follows. -/
structure EmailAt (before local_part domain after : Bytes) : Prop where
  some_ : local_part ≠ []
  part : local_part.all is_local_part = true
  whole : before.getLast?.any is_local_part = false
  domain : DomainForm domain
  ends : precedes_alphanumeric after = false

def emailFinding (before local_part domain : Bytes) : PiiFinding :=
  ⟨.EmailAddress, before.length, before.length + local_part.length + 1 + domain.length⟩

/-- What a completeness result asks besides: no label begins or ends with a hyphen, and no more of a domain follows. -/
structure Bare (domain after : Bytes) : Prop where
  labels : ∀ label ∈ domain.splitOn 46, label.head? ≠ some 45 ∧ label.getLast? ≠ some 45
  ends : (after.takeWhile is_domain_part).all isDotOrHyphen = true

inductive Grouped : Bytes → Prop
  | one {d : UInt8} : isDigit d = true → Grouped [d]
  | digit {d : UInt8} {rest : Bytes} : isDigit d = true → Grouped rest → Grouped (d :: rest)
  | gap {d s : UInt8} {rest : Bytes} : isDigit d = true → isSeparator s = true → Grouped rest → Grouped (d :: s :: rest)

structure CardAt (before number after : Bytes) : Prop where
  grouped : Grouped number
  count : 13 ≤ (number.filter isDigit).length ∧ (number.filter isDigit).length ≤ 19
  luhn : luhn (number.filter isDigit) = true
  opens : before.getLast?.any isDigit = false
  ends : after.head?.any isDigit = false

def cardFinding (before number : Bytes) : PiiFinding := ⟨.PaymentCardNumber, before.length, before.length + number.length⟩

theorem Grouped.head {number : Bytes} (grouped : Grouped number) : ∃ d rest, number = d :: rest ∧ isDigit d = true := by
  cases grouped with
  | one digit => exact ⟨_, _, rfl, digit⟩
  | digit digit _ => exact ⟨_, _, rfl, digit⟩
  | gap digit _ _ => exact ⟨_, _, rfl, digit⟩

theorem Grouped.cut {x y : Bytes} (grouped : Grouped (x ++ y)) (some_ : x ≠ []) (more : y ≠ []) :
    ∃ front left, x = front ++ left ∧ left ≠ [] ∧ ∀ {rest : Bytes}, Grouped rest → Grouped (left ++ rest) := by
  obtain ⟨number, is⟩ : ∃ number, x ++ y = number := ⟨_, rfl⟩
  rw [is] at grouped
  induction grouped generalizing x with
  | one digit =>
    cases x with
    | nil => exact (some_ rfl).elim
    | cons d x =>
      have tail := (List.cons.inj is).2
      exact (more (List.append_eq_nil_iff.mp tail).2).elim
  | @digit d rest digit grouped ih =>
    cases x with
    | nil => exact (some_ rfl).elim
    | cons c x =>
      obtain ⟨rfl, tail⟩ := List.cons.inj is
      cases x with
      | nil => exact ⟨[], [c], rfl, List.cons_ne_nil _ _, fun after => .digit digit after⟩
      | cons e x =>
        obtain ⟨front, left, split, held, extends_⟩ := ih (List.cons_ne_nil e x) tail
        exact ⟨c :: front, left, by rw [split]; rfl, held, extends_⟩
  | @gap d s rest digit separator grouped ih =>
    cases x with
    | nil => exact (some_ rfl).elim
    | cons c x =>
      obtain ⟨rfl, tail⟩ := List.cons.inj is
      cases x with
      | nil => exact ⟨[], [c], rfl, List.cons_ne_nil _ _, fun after => .digit digit after⟩
      | cons e x =>
        obtain ⟨rfl, more_tail⟩ := List.cons.inj tail
        cases x with
        | nil => exact ⟨[], [c, e], rfl, List.cons_ne_nil _ _, fun after => .gap digit separator after⟩
        | cons f x =>
          obtain ⟨front, left, split, held, extends_⟩ := ih (List.cons_ne_nil f x) more_tail
          exact ⟨c :: e :: front, left, by rw [split]; rfl, held, extends_⟩

end CommonMeasure.Processor
