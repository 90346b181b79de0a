import CommandGrammar.Numeric.Decimal
import CommandGrammar.Text.Blank

/-!
# Settings of a dispatcher

How many successful trials are enough, and how flags are written.  The two marks decide, word by
word, what role a word of the input plays before its place is considered: `Settings.role` is that
classification.
-/

set_option autoImplicit false

namespace CommandGrammar

/-- The choices of a dispatcher. -/
structure Settings where
  /-- trials stop after this many successes; nothing is below one -/
  maxSuccesses : Nat
  /-- stands before a long flag name -/
  longMark : String
  /-- stands before shorthands -/
  shortMark : String
  /-- a word such as `-5` is a value and no cluster of shorthands -/
  negativeNumbersAreValues : Bool
  deriving DecidableEq, Repr

namespace Settings

/-- Five successes, `--` and `-`, and negative numbers are values. -/
def standard : Settings := ⟨5, "--", "-", true⟩

instance : Inhabited Settings := ⟨standard⟩

/-- The first command that fits runs. -/
def firstMatch : Settings := { standard with maxSuccesses := 1 }

/-- The greatest number that a success cap can have. -/
def unlimited : Nat := Nat.pow 2 64 - 1

/-- Every command is tried. -/
def exhaustive : Settings := { standard with maxSuccesses := unlimited }

/-- Sets the success cap, which is at least one. -/
def withMaxSuccesses (s : Settings) (n : Nat) : Settings := { s with maxSuccesses := max n 1 }

/-- Sets the mark of long names. -/
def withLongMark (s : Settings) (mark : String) : Settings := { s with longMark := mark }

/-- Sets the mark of shorthands. -/
def withShortMark (s : Settings) (mark : String) : Settings := { s with shortMark := mark }

/-- Decides whether negative numbers are values. -/
def withNegativeNumbersAreValues (s : Settings) (b : Bool) : Settings :=
  { s with negativeNumbersAreValues := b }

/-- The number of successes after which trials stop. -/
def cap (s : Settings) : Nat := max s.maxSuccesses 1

theorem cap_pos (s : Settings) : 0 < s.cap := Nat.lt_of_lt_of_le Nat.one_pos (Nat.le_max_right _ _)

/-! ## The role of a word -/

/-- What a word is to the flag scan. -/
inductive Role where
  /-- the bare long mark, after which no word is a flag -/
  | endMark
  /-- a long name behind its mark -/
  | long (name : List Char)
  /-- shorthands behind their mark -/
  | cluster (letters : List Char)
  /-- the start of a quoted text -/
  | quoted
  /-- any other word -/
  | plain
  deriving DecidableEq, Repr, Inhabited

/-- What follows a mark at the front of a word, if something does. -/
def afterMark? (mark word : List Char) : Option (List Char) :=
  if mark.isPrefixOf word && decide (mark.length < word.length) then some (word.drop mark.length)
  else none

/-- Whether `rest` begins like a number and the whole word is one. -/
def looksNumeric (word rest : List Char) : Bool :=
  (match rest with
    | [] => false
    | c :: _ => Numeric.isDigit c || decide (c = '.'))
  && Numeric.isNumeral word

/-- The long name that a word spells. -/
def longName? (s : Settings) (word : List Char) : Option (List Char) :=
  afterMark? s.longMark.toList word

/-- The shorthands that a word spells. -/
def cluster? (s : Settings) (word : List Char) : Option (List Char) :=
  match afterMark? s.shortMark.toList word with
  | some rest => if s.negativeNumbersAreValues && looksNumeric word rest then none else some rest
  | none => none

/-- The role of a word. -/
def role (s : Settings) (word : List Char) : Role :=
  if word = s.longMark.toList then .endMark
  else
    match s.longName? word with
    | some name => .long name
    | none =>
      match s.cluster? word with
      | some letters => .cluster letters
      | none => if word.head? = some '"' then .quoted else .plain

end Settings

end CommandGrammar
