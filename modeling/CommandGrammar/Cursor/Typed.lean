import CommandGrammar.Cursor.Quoted
import CommandGrammar.Numeric.Integer
import CommandGrammar.Numeric.Decimal

/-!
# Typed reads

Integers, floating-point numbers and truth values read from the word at the cursor.  The word is
read over whether or not it has the right form, and a wrong one is quoted in the error.
-/

set_option autoImplicit false

namespace CommandGrammar.Cursor

/-- Reads a word as a signed 64-bit integer. -/
def readInt (c : Cursor) : Except CommandError Int64 × Cursor :=
  let (word, after) := c.readWord
  match Numeric.int64OfNumeral? word with
  | some n => (.ok n, after)
  | none => (.error (.rejected word "expected an integer"), after)

/-- Reads a word as a finite floating-point number. -/
def readFloat (c : Cursor) : Except CommandError Numeric.Binary64 × Cursor :=
  let (word, after) := c.readWord
  let wrong := CommandError.rejected word "expected a decimal number"
  match Numeric.binary64OfNumeral? word with
  | some x => (if x.isFinite then .ok x else .error wrong, after)
  | none => (.error wrong, after)

/-- The truth value that a word names, in any case. -/
def boolOfWord? (word : List Char) : Option Bool :=
  let w := String.ofList (Text.foldCase word)
  if w = "true" ∨ w = "yes" then some true
  else if w = "false" ∨ w = "no" ∨ w = "nope" then some false
  else none

/-- Reads a word or a quoted text as a truth value. -/
def readBool (c : Cursor) : Except CommandError Bool × Cursor :=
  match c.readText with
  | (.error fault, after) => (.error (.malformed fault), after)
  | (.ok word, after) =>
    match boolOfWord? word with
    | some b => (.ok b, after)
    | none => (.error (.rejected word "expected true or false"), after)

@[simp] theorem source_readInt (c : Cursor) : c.readInt.2.source = c.source := by
  have h := source_readWord c
  unfold readInt
  dsimp only
  split <;> exact h

@[simp] theorem source_readFloat (c : Cursor) : c.readFloat.2.source = c.source := by
  have h := source_readWord c
  unfold readFloat
  dsimp only
  split <;> exact h

@[simp] theorem source_readBool (c : Cursor) : c.readBool.2.source = c.source := by
  have h := source_readText c
  unfold readBool
  split
  · next heq => rw [heq] at h; exact h
  · next heq =>
    rw [heq] at h
    split <;> exact h

end CommandGrammar.Cursor
