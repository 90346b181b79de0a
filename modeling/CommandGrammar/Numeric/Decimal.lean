import CommandGrammar.Numeric.Binary64
import CommandGrammar.Numeric.Digits
import CommandGrammar.Text.AsciiCase

/-!
# Decimal numerals

A decimal numeral is an optional sign before one of

* digits, with at most one point anywhere among them and at least one digit, and then perhaps
  an exponent: `e` or `E`, an optional sign, and at least one digit;
* `inf`, `infinity` or `nan`, in any case.

It is read to the nearest double-precision number.
-/

set_option autoImplicit false

namespace CommandGrammar.Numeric

/-- The exponent part of a numeral: zero where there is none. -/
def exponentOfNumeral? : List Char → Option Int
  | [] => some 0
  | c :: rest =>
    if c = 'e' || c = 'E' then
      let (negative, digits) := splitSign rest
      if digits.isEmpty || !digits.all isDigit then none
      else if negative then some (-(natOfDigits digits : Int))
      else some (natOfDigits digits : Int)
    else none

/-- The digits after the point, and what follows them. -/
def splitFraction : List Char → List Char × List Char
  | '.' :: rest => (rest.takeWhile isDigit, rest.dropWhile isDigit)
  | text => ([], text)

/-- A numeral with digits, without its sign: the digits as one number and the power of ten. -/
def digitsOfNumeral? (text : List Char) : Option (Nat × Int) :=
  let whole := text.takeWhile isDigit
  let (fraction, rest) := splitFraction (text.dropWhile isDigit)
  if whole.isEmpty && fraction.isEmpty then none
  else
    match exponentOfNumeral? rest with
    | some e => some (natOfDigits (whole ++ fraction), e - (fraction.length : Int))
    | none => none

/-- The double-precision number that a numeral stands for. -/
def binary64OfNumeral? (text : List Char) : Option Binary64 :=
  let (negative, body) := splitSign text
  match digitsOfNumeral? body with
  | some (m, e) => some (Binary64.ofDecimal negative m e)
  | none =>
    let word := Text.foldCase body
    if word = ['i', 'n', 'f'] || word = ['i', 'n', 'f', 'i', 'n', 'i', 't', 'y'] then
      some (Binary64.infinity negative)
    else if word = ['n', 'a', 'n'] then some Binary64.nan
    else none

/-- Whether a text is a decimal numeral. -/
def isNumeral (text : List Char) : Bool := (binary64OfNumeral? text).isSome

end CommandGrammar.Numeric
