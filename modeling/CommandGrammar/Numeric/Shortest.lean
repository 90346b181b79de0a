import CommandGrammar.Numeric.Binary64
import CommandGrammar.Numeric.Digits

/-!
# The shortest decimal of a floating-point number

A floating-point number stands for every real that rounds to it.  Its text has the fewest digits
that lie in that interval, and of those the nearest to the number; of two equally near ones the
larger.  The ends of the interval belong to it where the significand is even.

`Shortest.select` finds the digits by exact comparisons of natural numbers.  `NumberLayout` says how
digits are laid out: which numbers are written positionally and whether a whole number keeps a
point.
-/

set_option autoImplicit false

namespace CommandGrammar.Numeric

/-- The number `digits * 10 ^ power`. -/
structure Scaled where
  digits : Nat
  power : Int
  deriving DecidableEq, Repr, Inhabited

namespace Shortest

/-- Compares `a * 10 ^ i` with `b * 2 ^ j`. -/
def compareScaled (a : Nat) (i : Int) (b : Nat) (j : Int) : Ordering :=
  compare (a * Nat.pow 10 i.toNat * Nat.pow 2 (-j).toNat)
    (b * Nat.pow 2 j.toNat * Nat.pow 10 (-i).toNat)

/-- Four times the lower end of the interval of `x`, in units of its last place.  Below a power of
two the gap is half as wide as above it. -/
def lowerEnd (x : Binary64) : Nat :=
  if x.fraction = 0 && decide (1 < x.exponentField) then 4 * x.significand - 1
  else 4 * x.significand - 2

/-- Four times the upper end of the interval of `x`, in units of its last place. -/
def upperEnd (x : Binary64) : Nat := 4 * x.significand + 2

/-- Whether a decimal lies among the reals that round to the magnitude of `x`. -/
def roundsTo (x : Binary64) (d : Scaled) : Bool :=
  let low := compareScaled d.digits d.power (lowerEnd x) (x.scale - 2)
  let high := compareScaled d.digits d.power (upperEnd x) (x.scale - 2)
  let closed := x.significand % 2 = 0
  (low == .gt || (closed && low == .eq)) && (high == .lt || (closed && high == .eq))

/-- The magnitude of `x` in units of `10 ^ p`, rounded down. -/
def floorAt (x : Binary64) (p : Int) : Nat :=
  (x.significand * Nat.pow 2 x.scale.toNat * Nat.pow 10 (-p).toNat)
    / (Nat.pow 2 (-x.scale).toNat * Nat.pow 10 p.toNat)

/-- Whether the magnitude of `x` is at least halfway from `n` to `n + 1` units of `10 ^ p`. -/
def pastHalf (x : Binary64) (n : Nat) (p : Int) : Bool :=
  compareScaled (2 * n + 1) p (2 * x.significand) x.scale != .gt

/-- The least `k` from `low` on, among `count` values, with the magnitude of `x` below `10 ^ k`. -/
def leadingFrom (x : Binary64) (low : Int) : Nat → Int
  | 0 => low
  | count + 1 =>
    if compareScaled 1 low x.significand x.scale == .gt then low
    else leadingFrom x (low + 1) count

/-- The least `k` with the magnitude of `x` below `10 ^ k`.  The binary length of the significand
gives a start from which one or two steps suffice. -/
def leading (x : Binary64) : Int :=
  let binary := (x.significand.log2 : Int) + x.scale
  leadingFrom x (binary * 30102 / 100000 - 1) 5

/-- The better of the two neighbours of `x` on the grid `10 ^ p`, if one of them rounds to `x`. -/
def onGrid (x : Binary64) (p : Int) : Option Scaled :=
  let n := floorAt x p
  let down := roundsTo x ⟨n, p⟩
  let up := roundsTo x ⟨n + 1, p⟩
  if up && (!down || pastHalf x n p) then some ⟨n + 1, p⟩
  else if down then some ⟨n, p⟩
  else none

/-- The first grid with a neighbour that rounds to `x`, from `10 ^ p` down. -/
def search (x : Binary64) (p : Int) : Nat → Option Scaled
  | 0 => none
  | count + 1 =>
    match onGrid x p with
    | some d => some d
    | none => search x (p - 1) count

/-- Moves trailing zeros of the digits into the power, at most `count` of them. -/
def stripZeros (d : Scaled) : Nat → Scaled
  | 0 => d
  | count + 1 =>
    if d.digits ≠ 0 ∧ d.digits % 10 = 0 then stripZeros ⟨d.digits / 10, d.power + 1⟩ count else d

/-- The shortest decimal that rounds to the magnitude of `x`, a positive finite number.  Seventeen
digits always suffice; the exact value stands in should they not. -/
def select (x : Binary64) : Scaled :=
  match search x (leading x - 1) 18 with
  | some d => stripZeros d 18
  | none =>
    ⟨x.significand * Nat.pow 2 x.scale.toNat * Nat.pow 5 (-x.scale).toNat, min x.scale 0⟩

end Shortest

/-! ## Layout -/

/-- How the digits of a number are laid out. -/
structure NumberLayout where
  /-- numbers from `10 ^ plainFrom` on are written positionally; `none` for all -/
  plainFrom : Option Int
  /-- numbers below `10 ^ plainBelow` are written positionally; `none` for all -/
  plainBelow : Option Int
  /-- a whole number keeps a point and a zero -/
  pointZero : Bool
  deriving DecidableEq, Repr, Inhabited

namespace NumberLayout

/-- Whether a number whose leading digit has the given power is written positionally. -/
def plain (f : NumberLayout) (power : Int) : Bool :=
  (match f.plainFrom with
    | some low => decide (low ≤ power)
    | none => true)
  && (match f.plainBelow with
    | some high => decide (power < high)
    | none => true)

/-- Positional digits: zeros fill up to the point on either side. -/
def positional (f : NumberLayout) (digits : List Char) (power : Int) : List Char :=
  let point := (digits.length : Int) + power
  if 0 ≤ power then
    digits ++ List.replicate power.toNat '0' ++ (if f.pointZero then ['.', '0'] else [])
  else if 0 < point then
    digits.take point.toNat ++ ['.'] ++ digits.drop point.toNat
  else ['0', '.'] ++ List.replicate (-point).toNat '0' ++ digits

/-- One digit before the point, and the power of ten behind an `e`. -/
def scientific (digits : List Char) (power : Int) : List Char :=
  let e := (digits.length : Int) - 1 + power
  let exponent := if e < 0 then '-' :: decimalDigits e.natAbs else decimalDigits e.natAbs
  match digits with
  | [] => []
  | [d] => d :: 'e' :: exponent
  | d :: rest => d :: '.' :: rest ++ 'e' :: exponent

/-- The text of a positive decimal. -/
def layout (f : NumberLayout) (d : Scaled) : List Char :=
  let digits := decimalDigits d.digits
  if f.plain ((digits.length : Int) - 1 + d.power) then f.positional digits d.power
  else scientific digits d.power

/-- The text of a floating-point number. -/
def render (f : NumberLayout) (x : Binary64) : List Char :=
  if x.isNaN then ['N', 'a', 'N']
  else
    let sign := if x.negative then ['-'] else []
    if !x.isFinite then sign ++ ['i', 'n', 'f']
    else if x.magnitude = 0 then sign ++ f.positional ['0'] 0
    else sign ++ f.layout (Shortest.select x)

end NumberLayout

end CommandGrammar.Numeric
