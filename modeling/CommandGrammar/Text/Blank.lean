import CommandGrammar.Text.CodeRange

/-!
# Blank characters

Words of an input line are separated by *blanks*: the 25 characters that have the Unicode
property `White_Space`.  The class is wider than ASCII (it holds the no-break space and the
ideographic space) and leaves out characters that only look like spaces, such as the zero width
space.  This module also holds the cuts at blanks that the rest of the library uses: the word at
the front of a text, the text without its leading or trailing blanks, and the list of all words.
-/

set_option autoImplicit false

namespace CommandGrammar.Text

/-- The code points with the property `White_Space`. -/
def blankRanges : List CodeRange :=
  [(0x09, 0x0D), (0x20, 0x20), (0x85, 0x85), (0xA0, 0xA0), (0x1680, 0x1680), (0x2000, 0x200A),
   (0x2028, 0x2029), (0x202F, 0x202F), (0x205F, 0x205F), (0x3000, 0x3000)]

/-- Whether `c` separates words. -/
def isBlank (c : Char) : Bool := inRanges blankRanges c

/-- Whether `c` belongs to a word. -/
def isInk (c : Char) : Bool := !isBlank c

/-- Every blank of core's ASCII class is a blank here. -/
theorem isBlank_of_isWhitespace {c : Char} (h : c.isWhitespace = true) : isBlank c = true := by
  simp only [Char.isWhitespace, Bool.or_eq_true, decide_eq_true_eq] at h
  rcases h with (((h | h) | h) | h) <;> subst h <;> decide

/-! ## The word at the front -/

/-- The longest run of characters without a blank that `text` starts with. -/
def firstWord (text : List Char) : List Char := text.takeWhile isInk

/-- What follows the word at the front. -/
def afterWord (text : List Char) : List Char := text.dropWhile isInk

theorem firstWord_append_afterWord (text : List Char) :
    firstWord text ++ afterWord text = text :=
  List.takeWhile_append_dropWhile

/-! ## Trimming -/

/-- The text without its leading blanks. -/
def trimLeft (text : List Char) : List Char := text.dropWhile isBlank

/-- The blanks that `text` starts with. -/
def leadingBlanks (text : List Char) : List Char := text.takeWhile isBlank

/-- The text without its trailing blanks. -/
def trimRight (text : List Char) : List Char := (trimLeft text.reverse).reverse

/-- The text without its leading and its trailing blanks. -/
def trim (text : List Char) : List Char := trimRight (trimLeft text)

theorem leadingBlanks_append_trimLeft (text : List Char) :
    leadingBlanks text ++ trimLeft text = text :=
  List.takeWhile_append_dropWhile

theorem length_trimLeft_le (text : List Char) : (trimLeft text).length ≤ text.length :=
  (List.dropWhile_sublist isBlank).length_le

/-- Whether a text begins with a blank. -/
def startsBlank : List Char → Bool
  | [] => false
  | c :: _ => isBlank c

/-- Whether a text ends with a blank. -/
def endsBlank (text : List Char) : Bool := startsBlank text.reverse

/-! ## All words -/

/-- Collects words from the back: `word` is the unfinished word, reversed. -/
def wordsFrom (word : List Char) : List Char → List (List Char)
  | [] => if word.isEmpty then [] else [word.reverse]
  | c :: rest =>
    if isBlank c then
      if word.isEmpty then wordsFrom [] rest else word.reverse :: wordsFrom [] rest
    else wordsFrom (c :: word) rest

/-- The words of a text, in order. -/
def words (text : List Char) : List (List Char) := wordsFrom [] text

/-- The first word of a line, if it has one. -/
def leadingWord? (text : List Char) : Option (List Char) :=
  match firstWord (trimLeft text) with
  | [] => none
  | word => some word

end CommandGrammar.Text
