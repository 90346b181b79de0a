import CommandGrammar.ValueType.Basic

/-!
# Ready-made readers

A host that adds a value type has to say how it is read.  The readers of this module cover the
usual ways: a word, a fixed number of integers between commas, a number of characters, a text up to
a delimiter, and the rest of the input.  None of them leaves a note.
-/

set_option autoImplicit false

namespace CommandGrammar

/-- How a host reads a value. -/
abbrev Reader : Type := Cursor → Context → Parsed

namespace Reader

/-- A string that has been read. -/
def ofText (r : List Char × Cursor) : Parsed := ⟨.ok (.string (String.ofList r.1)), r.2, []⟩

/-- A failure without a note. -/
def failAt (e : CommandError) (c : Cursor) : Parsed := ⟨.error e, c, []⟩

/-- Reads up to the next blank. -/
def word : Reader := fun c _ => ofText c.readWord

/-- Reads everything that is left. -/
def rest : Reader := fun c _ => ofText c.readRest

/-- Reads up to and over an unescaped delimiter. -/
def delimited (delimiter : Char) : Reader := fun c _ =>
  match c.readUntil delimiter with
  | (.ok text, after) => ofText (text, after)
  | (.error fault, after) => failAt (.malformed fault) after

/-- Reads at most `count` characters. -/
def takeChars : Nat → Cursor → List Char × Cursor
  | 0, c => ([], c)
  | count + 1, c =>
    match c.next with
    | (none, after) => ([], after)
    | (some x, after) =>
      let (text, last) := takeChars count after
      (x :: text, last)

/-- Reads at most `count` characters, blanks included. -/
def characters (count : Nat) : Reader := fun c _ => ofText (takeChars count c)

/-- The pieces of a word between commas. -/
def pieces : List Char → List (List Char)
  | [] => [[]]
  | c :: text =>
    match pieces text with
    | [] => [[c]]
    | piece :: others => if c = ',' then [] :: piece :: others else (c :: piece) :: others

/-- Reads a word with exactly `count` integers between commas; pieces that are no integers do not
count. -/
def integers (count : Nat) : Reader := fun c _ =>
  let (text, after) := c.readWord
  let numbers := (pieces text).filterMap Numeric.int64OfNumeral?
  if numbers.length = count then ⟨.ok (.list (numbers.map .int)), after, []⟩
  else failAt (.rejected text "wrong number of parts") after

end Reader

end CommandGrammar
