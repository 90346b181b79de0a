/-!
# Comparing text without regard to ASCII case

Literals, enumerated names, long flag names and the filter of completions are compared so that
`A` to `Z` equal `a` to `z`, and every other character equals only itself.  The fold is core's
`Char.toLower`, which changes nothing outside ASCII.
-/

set_option autoImplicit false

namespace CommandGrammar.Text

/-- The text with its ASCII capitals replaced by small letters. -/
def foldCase (text : List Char) : List Char := text.map Char.toLower

/-- Whether two texts differ at most in ASCII case. -/
def sameFolded (a b : List Char) : Bool := decide (foldCase a = foldCase b)

theorem sameFolded_iff {a b : List Char} : sameFolded a b = true ↔ foldCase a = foldCase b := by
  simp [sameFolded]

@[simp] theorem sameFolded_self (a : List Char) : sameFolded a a = true := by simp [sameFolded]

theorem sameFolded_comm (a b : List Char) : sameFolded a b = sameFolded b a := by
  simp [sameFolded, eq_comm]

/-- Whether `text` starts with `start`, up to ASCII case. -/
def startsFolded (text start : List Char) : Bool := (foldCase start).isPrefixOf (foldCase text)

theorem startsFolded_iff {text start : List Char} :
    startsFolded text start = true ↔ foldCase start <+: foldCase text := by
  simp [startsFolded]

end CommandGrammar.Text
