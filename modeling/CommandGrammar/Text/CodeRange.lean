/-!
# Ranges of code points

A character class of the Unicode character database is written as a list of closed ranges of
code points.  Every class of the library (blanks, unprintable characters, combining characters,
cased characters) is such a list, read by the one membership test of this module.
-/

set_option autoImplicit false

namespace CommandGrammar.Text

/-- A closed range of code points, by its first and last member. -/
abbrev CodeRange : Type := Nat × Nat

/-- Whether the code point of `c` lies in one of the ranges. -/
def inRanges (ranges : List CodeRange) (c : Char) : Bool :=
  ranges.any fun r => decide (r.1 ≤ c.toNat) && decide (c.toNat ≤ r.2)

theorem inRanges_iff {ranges : List CodeRange} {c : Char} :
    inRanges ranges c = true ↔ ∃ r ∈ ranges, r.1 ≤ c.toNat ∧ c.toNat ≤ r.2 := by
  simp [inRanges]

end CommandGrammar.Text
