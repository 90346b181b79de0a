/-!
# Binary floating-point numbers

A `Binary64` is the 64-bit pattern of a double-precision number: a sign, eleven bits of exponent
and 52 bits of fraction.  Two values are equal when their patterns are, so a not-a-number equals
itself and the two zeros differ.  The numeric order is separate: it puts the zeros together and
leaves out every not-a-number.

`ofRatio` rounds a quotient of natural numbers to the nearest value, a tie to the even one; it is
exact integer arithmetic throughout.
-/

set_option autoImplicit false

namespace CommandGrammar.Numeric

/-- A double-precision number, by its bit pattern. -/
structure Binary64 where
  bits : UInt64
  deriving DecidableEq, Repr, Inhabited

namespace Binary64

/-! ## Fields -/

/-- Whether the sign bit is set. -/
def negative (x : Binary64) : Bool := decide (Nat.pow 2 63 ≤ x.bits.toNat)

/-- The pattern without its sign bit. -/
def magnitude (x : Binary64) : Nat := x.bits.toNat % Nat.pow 2 63

/-- The stored exponent. -/
def exponentField (x : Binary64) : Nat := x.magnitude / Nat.pow 2 52

/-- The stored fraction. -/
def fraction (x : Binary64) : Nat := x.magnitude % Nat.pow 2 52

/-- Whether the pattern stands for a number. -/
def isFinite (x : Binary64) : Bool := decide (x.exponentField < 2047)

/-- Whether the pattern stands for no number and no infinity. -/
def isNaN (x : Binary64) : Bool := decide (x.exponentField = 2047) && decide (x.fraction ≠ 0)

/-- The integer significand of a finite value. -/
def significand (x : Binary64) : Nat :=
  if x.exponentField = 0 then x.fraction else Nat.pow 2 52 + x.fraction

/-- The power of two that the significand is scaled by. -/
def scale (x : Binary64) : Int :=
  if x.exponentField = 0 then -1074 else (x.exponentField : Int) - 1075

/-! ## Order -/

/-- The place of a value on the number line, as an integer that grows with it. -/
def rankKey (x : Binary64) : Int := if x.negative then -(x.magnitude : Int) else (x.magnitude : Int)

/-- Numeric comparison; nothing is below or above a not-a-number. -/
def below (x y : Binary64) : Bool := !x.isNaN && !y.isNaN && decide (x.rankKey < y.rankKey)

theorem below_irrefl (x : Binary64) : x.below x = false := by simp [below]

/-! ## Rounding -/

/-- The pattern with a given sign and magnitude. -/
def ofMagnitude (negative : Bool) (magnitude : Nat) : Binary64 :=
  ⟨UInt64.ofNat (if negative then Nat.pow 2 63 + magnitude else magnitude)⟩

/-- The infinities. -/
def infinity (negative : Bool) : Binary64 := ofMagnitude negative (2047 * Nat.pow 2 52)

/-- The not-a-number that reading a numeral gives. -/
def nan : Binary64 := ⟨0x7FF8000000000000⟩

/-- The zeros. -/
def zero (negative : Bool) : Binary64 := ofMagnitude negative 0

/-- The quotient of two natural numbers, rounded to the nearest integer, a tie to the even one. -/
def roundQuotient (n d : Nat) : Nat :=
  let q := n / d
  let r := n % d
  if d < 2 * r || (2 * r = d && q % 2 = 1) then q + 1 else q

/-- Numerator and denominator of `n / d / 2 ^ e`. -/
def unscale (n d : Nat) (e : Int) : Nat × Nat :=
  (n * Nat.pow 2 (-e).toNat, d * Nat.pow 2 e.toNat)

/-- The power of two of the last place that `n / d` keeps, for `n` and `d` positive: the quotient
without it has 53 binary digits, or the power is the least one there is. -/
def lastPlace (n d : Nat) : Int :=
  let guess := max ((n.log2 : Int) - (d.log2 : Int) - 53) (-1074)
  let (n', d') := unscale n d guess
  if Nat.pow 2 53 ≤ n' / d' then guess + 1 else guess

/-- The nearest value to `± n / d`.  The significand is added to the stored exponent, so that one
that rounds up to 2 ^ 53 carries into it; what carries beyond the last exponent is infinite. -/
def ofRatio (negative : Bool) (n d : Nat) : Binary64 :=
  if n = 0 then zero negative
  else
    let e := lastPlace n d
    let (n', d') := unscale n d e
    let magnitude := (e + 1074).toNat * Nat.pow 2 52 + roundQuotient n' d'
    if 2047 * Nat.pow 2 52 ≤ magnitude then infinity negative else ofMagnitude negative magnitude

/-- The nearest value to an integer. -/
def ofInt (n : Int) : Binary64 := ofRatio (decide (n < 0)) n.natAbs 1

/-- The nearest value to `± m * 10 ^ e`.  Powers beyond the range are decided by their size alone,
so an exponent of any length costs nothing. -/
def ofDecimal (negative : Bool) (m : Nat) (e : Int) : Binary64 :=
  if m = 0 then zero negative
  else if 400 < e then infinity negative
  else if e + m.log2 < -400 then zero negative
  else ofRatio negative (m * Nat.pow 10 e.toNat) (Nat.pow 10 (-e).toNat)

end Binary64

end CommandGrammar.Numeric
