import MipsImage.Bits
import MipsImage.Text.Basic

/-!
# JSON values

Values as they come in requests and go out in replies. An object holds each key once. Integers have
any size; a number with a fraction or an exponent is kept as it is written, since nothing is
computed with it.
-/
set_option autoImplicit false

namespace MipsImage

inductive JsonValue where
  | null
  | bool (value : Bool)
  | integer (value : Int)
  | real (literal : Text)
  | string (text : Text)
  | array (items : List JsonValue)
  | object (members : List (Text × JsonValue))

namespace JsonValue

/-! ## Zero -/

/-- The number that the digits in a text write, whatever stands between them. -/
def digitsValue (t : Text) : Nat :=
  (t.filter CodePoint.isDigit).foldl (fun n c => 10 * n + (c.toNat - '0'.toNat)) 0

/-- The power of ten by which the digits of a literal are multiplied. -/
def scale (significand power : Text) : Int :=
  let places := (significand.dropWhile (· ≠ .char '.')).countP CodePoint.isDigit
  let exponent : Int := digitsValue power
  (if .char '-' ∈ power then -exponent else exponent) - places

/-- A literal is rounded to zero if it is not above half of the least positive number in double
precision, which is the power of two with exponent -1074. -/
def isZeroLiteral (literal : Text) : Bool :=
  let isMark (c : CodePoint) : Bool := c = 'e' || c = 'E'
  let significand := literal.takeWhile (!isMark ·)
  let scale := scale significand (literal.dropWhile (!isMark ·))
  let digits := significand.countP CodePoint.isDigit
  if digits = 0 then false
  else if digitsValue significand = 0 then true
  else if 0 ≤ scale then false
  else if digits + 324 ≤ scale.natAbs then true
  else digitsValue significand * Bits.count 1075 ≤ Nat.pow 10 scale.natAbs

/-! ## Emptiness and members -/

/-- Null, false, zero and whatever holds nothing count as empty. -/
def isEmpty : JsonValue → Bool
  | null => true
  | bool value => !value
  | integer value => value = 0
  | real literal => isZeroLiteral literal
  | string text => text.isEmpty
  | array items => items.isEmpty
  | object members => members.isEmpty

def ofString (s : String) : JsonValue := .string s.toText

def ofMembers (members : List (String × JsonValue)) : JsonValue :=
  .object (members.map fun (key, value) => (key.toText, value))

end JsonValue

end MipsImage
