import CommonMeasure.Foundation.Text
import Mathlib.Data.Nat.Digits.Lemmas
import Mathlib.Algebra.Order.Group.Unbundled.Basic

/-!
# JSON values and their compact text

`Value` is a JSON document with its members in document order, a number standing as the decimal
text that writes it.
-/

namespace CommonMeasure.Json

theorem forall_byte {P : UInt8 → Prop} (all : ∀ n : Fin 256, P (UInt8.ofFin n)) (b : UInt8) : P b := by
  simpa using all b.toFin

def isDigit (b : UInt8) : Bool := 48 ≤ b && b ≤ 57

def isNumberByte (b : UInt8) : Bool := isDigit b || b == 45 || b == 43 || b == 46 || b == 101 || b == 69

inductive NumberState where
  | start | minus | zero | whole | point | fraction | exponent | sign | power
  deriving DecidableEq

def NumberState.step : NumberState → UInt8 → Option NumberState
  | .start, b => if b = 45 then some .minus else if b = 48 then some .zero else if isDigit b then some .whole else none
  | .minus, b => if b = 48 then some .zero else if isDigit b then some .whole else none
  | .zero, b => if b = 46 then some .point else if b = 101 ∨ b = 69 then some .exponent else none
  | .whole, b =>
      if isDigit b then some .whole else if b = 46 then some .point
      else if b = 101 ∨ b = 69 then some .exponent else none
  | .point, b => if isDigit b then some .fraction else none
  | .fraction, b =>
      if isDigit b then some .fraction else if b = 101 ∨ b = 69 then some .exponent else none
  | .exponent, b =>
      if b = 43 ∨ b = 45 then some .sign else if isDigit b then some .power else none
  | .sign, b | .power, b => if isDigit b then some .power else none

def NumberState.run : NumberState → Bytes → Option NumberState
  | state, [] => some state
  | state, b :: rest => (state.step b).bind fun next => next.run rest

def NumberState.accepting : NumberState → Bool
  | .zero | .whole | .fraction | .power => true
  | _ => false

def isNumber (text : Bytes) : Bool := text.all isNumberByte && ((NumberState.start.run text).any NumberState.accepting)

structure Number where
  text : Bytes
  wellFormed : isNumber text = true
  deriving DecidableEq

def digitByte (d : Nat) : UInt8 := (48 + d).toUInt8

def decimal (n : Nat) : Bytes := if n = 0 then [48] else ((Nat.digits 10 n).map digitByte).reverse

def digitsValue (text : Bytes) : Nat := Nat.ofDigits 10 (text.reverse.map fun b => b.toNat - 48)

inductive Value where
  | null
  | bool (b : Bool)
  | number (n : Number)
  | string (s : String)
  | array (items : List Value)
  | object (members : List (String × Value))

def hexDigit (n : UInt8) : UInt8 := if n < 10 then 48 + n else 87 + n

def escape (b : UInt8) : Bytes :=
  if b = 34 then [92, 34]
  else if b = 92 then [92, 92]
  else if b = 8 then [92, 98]
  else if b = 9 then [92, 116]
  else if b = 10 then [92, 110]
  else if b = 12 then [92, 102]
  else if b = 13 then [92, 114]
  else if b < 32 then [92, 117, 48, 48, hexDigit (b / 16), hexDigit (b % 16)]
  else [b]

def writeString (s : String) : Bytes := 34 :: ((utf8 s).flatMap escape ++ [34])

mutual

def write : Value → Bytes
  | .null => [110, 117, 108, 108]
  | .bool true => [116, 114, 117, 101]
  | .bool false => [102, 97, 108, 115, 101]
  | .number n => n.text
  | .string s => writeString s
  | .array items => 91 :: writeItems items
  | .object members => 123 :: writeMembers members

def writeItems : List Value → Bytes
  | [] => [93]
  | [item] => write item ++ [93]
  | item :: more => write item ++ 44 :: writeItems more

def writeMembers : List (String × Value) → Bytes
  | [] => [125]
  | [(name, value)] => writeString name ++ 58 :: (write value ++ [125])
  | (name, value) :: more => writeString name ++ 58 :: (write value ++ 44 :: writeMembers more)

end

mutual

def Value.depth : Value → Nat
  | .array items => 1 + depthItems items
  | .object members => 1 + depthMembers members
  | _ => 0

def depthItems : List Value → Nat
  | [] => 0
  | item :: more => max item.depth (depthItems more)

def depthMembers : List (String × Value) → Nat
  | [] => 0
  | (_, value) :: more => max value.depth (depthMembers more)

end

end CommonMeasure.Json
