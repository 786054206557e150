import CommonMeasure.Http.Message

namespace CommonMeasure.Processor

open Http (isDigit isAlphabetic)

inductive PiiCategory where
  | EmailAddress
  | PaymentCardNumber
  | NationalInsuranceNumber
  | InternationalPhoneNumber
  deriving DecidableEq

structure PiiFinding where
  category : PiiCategory
  start : Nat
  stop : Nat
  deriving DecidableEq

def isAlphanumeric (b : UInt8) : Bool := isDigit b || isAlphabetic b

def isUppercase (b : UInt8) : Bool := 65 ≤ b && b ≤ 90

def cuts (before : Bytes) : Bytes → List (Bytes × Bytes)
  | [] => []
  | b :: rest => (before, b :: rest) :: cuts (before ++ [b]) rest

def scanned (scanner : Bytes → Bytes → Option PiiFinding) (text : Bytes) : List PiiFinding :=
  (cuts [] text).filterMap fun (before, rest) => scanner before rest

def follows_alphanumeric (before : Bytes) : Bool := before.getLast?.any isAlphanumeric

def precedes_alphanumeric (after : Bytes) : Bool := after.head?.any isAlphanumeric

def is_local_part (b : UInt8) : Bool := isAlphanumeric b || b = 46 || b = 95 || b = 37 || b = 43 || b = 45

def is_domain_part (b : UInt8) : Bool := isAlphanumeric b || b = 46 || b = 45

def isDotOrHyphen (b : UInt8) : Bool := b = 46 || b = 45

def valid_domain (domain : Bytes) : Bool :=
  let labels := domain.splitOn 46
  2 ≤ labels.length &&
    labels.all (fun label => label ≠ [] && label.head? ≠ some 45 && label.getLast? ≠ some 45) &&
    labels.getLast?.any fun top => 2 ≤ top.length && top.all isAlphabetic

def email_at (before : Bytes) : Bytes → Option PiiFinding
  | [] => none
  | b :: after =>
    if b ≠ 64 then none
    else
      let local_part := before.rtakeWhile is_local_part
      let domain := (after.takeWhile is_domain_part).rdropWhile isDotOrHyphen
      if local_part ≠ [] ∧ valid_domain domain then
        some ⟨.EmailAddress, before.length - local_part.length, before.length + 1 + domain.length⟩
      else none

def emails (text : Bytes) : List PiiFinding := scanned email_at text

def luhn_sum : Bool → Bytes → Nat
  | _, [] => 0
  | doubles, digit :: rest =>
    let value := digit.toNat - 48
    (if doubles then if 9 < value * 2 then value * 2 - 9 else value * 2 else value) + luhn_sum (!doubles) rest

def luhn (digits : Bytes) : Bool := luhn_sum false digits.reverse % 10 = 0

def isSeparator (b : UInt8) : Bool := b = 32 || b = 45

def card_run : Bytes → Bytes
  | [] => []
  | b :: rest =>
    if isDigit b then b :: card_run rest
    else if isSeparator b && rest.head?.any isDigit then b :: card_run rest
    else []

def card_of (start : Nat) (run : Bytes) : List PiiFinding :=
  let digits := run.filter isDigit
  if 13 ≤ digits.length ∧ digits.length ≤ 19 ∧ luhn digits then [⟨.PaymentCardNumber, start, start + run.length⟩] else []

def cards_from : Nat → Bytes → Bytes → List PiiFinding
  | 0, _, _ => []
  | _ + 1, _, [] => []
  | turns + 1, before, b :: rest =>
    if !isDigit b || before.getLast?.any isDigit then cards_from turns (before ++ [b]) rest
    else
      let run := card_run (b :: rest)
      card_of before.length run ++ cards_from turns (before ++ run) ((b :: rest).drop run.length)

def card_numbers (text : Bytes) : List PiiFinding := cards_from text.length [] text

def excluded (b : UInt8) : Bool := [68, 70, 73, 81, 85, 86].contains b

def valid_ni_prefix (first second : UInt8) : Bool :=
  isUppercase first && isUppercase second && !excluded first && !excluded second && second ≠ 79

def skip_space : Bytes → Bytes
  | [] => []
  | b :: rest => if b = 32 then rest else b :: rest

def digit_pairs : Nat → Bytes → Option Bytes
  | 0, bytes => some bytes
  | pairs + 1, bytes =>
    match skip_space bytes with
    | a :: b :: rest => if isDigit a && isDigit b then digit_pairs pairs rest else none
    | _ => none

def match_ni (bytes : Bytes) : Option Nat :=
  match bytes with
  | first :: second :: rest =>
    if bytes.length < 9 ∨ ¬ valid_ni_prefix first second then none
    else match digit_pairs 3 rest with
      | none => none
      | some left =>
        match skip_space left with
        | [] => none
        | b :: rest => if 65 ≤ b ∧ b ≤ 68 then some (bytes.length - rest.length) else none
  | _ => none

def ni_at (before rest : Bytes) : Option PiiFinding :=
  if follows_alphanumeric before then none
  else match match_ni rest with
    | none => none
    | some length =>
      if precedes_alphanumeric (rest.drop length) then none
      else some ⟨.NationalInsuranceNumber, before.length, before.length + length⟩

def national_insurance_numbers (text : Bytes) : List PiiFinding := scanned ni_at text

def isParenthesis (b : UInt8) : Bool := b = 40 || b = 41

def isJoin (b : UInt8) : Bool := isSeparator b || isParenthesis b

def phone_run : Bytes → Bytes
  | [] => []
  | b :: rest =>
    if isDigit b then b :: phone_run rest
    else if isJoin b && rest.head?.any (fun next => isDigit next || isParenthesis next) then b :: phone_run rest
    else []

def phone_at (before : Bytes) : Bytes → Option PiiFinding
  | [] => none
  | b :: after =>
    if b ≠ 43 ∨ follows_alphanumeric before then none
    else
      -- The number ends at its last digit.
      let run := (phone_run after).rdropWhile fun b => !isDigit b
      let digits := (run.filter isDigit).length
      if 8 ≤ digits ∧ digits ≤ 15 then some ⟨.InternationalPhoneNumber, before.length, before.length + 1 + run.length⟩ else none

def phone_numbers (text : Bytes) : List PiiFinding := scanned phone_at text

def PiiFinding.earlier (one other : PiiFinding) : Bool :=
  one.start < other.start || one.start = other.start && one.stop ≤ other.stop

def scan (text : Bytes) : List PiiFinding :=
  (emails text ++ card_numbers text ++ national_insurance_numbers text ++ phone_numbers text).mergeSort PiiFinding.earlier

end CommonMeasure.Processor
