import CommandGrammar.Numeric.Digits

/-!
# Integer numerals

An integer numeral is an optional sign and at least one digit.  It is read into the signed
64-bit range; a numeral beyond that range is refused, not wrapped.
-/

set_option autoImplicit false

namespace CommandGrammar.Numeric

/-- The integer that a numeral stands for, whatever its size. -/
def integerOfNumeral? (text : List Char) : Option Int :=
  let (negative, digits) := splitSign text
  if digits.isEmpty || !digits.all isDigit then none
  else if negative then some (-(natOfDigits digits : Int))
  else some (natOfDigits digits : Int)

/-- Whether an integer has a signed 64-bit form. -/
def fitsInt64 (n : Int) : Bool := decide (-Int.pow 2 63 ≤ n) && decide (n < Int.pow 2 63)

/-- The signed 64-bit integer that a numeral stands for. -/
def int64OfNumeral? (text : List Char) : Option Int64 :=
  match integerOfNumeral? text with
  | some n => if fitsInt64 n then some (Int64.ofInt n) else none
  | none => none

/-- The numeral of an integer: a minus where it is negative, then its digits. -/
def integerNumeral (n : Int) : List Char :=
  if n < 0 then '-' :: decimalDigits n.natAbs else decimalDigits n.natAbs

end CommandGrammar.Numeric
