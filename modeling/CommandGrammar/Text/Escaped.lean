import CommandGrammar.Text.Printable

/-!
# Quoted and escaped text

The debugging view of a string stands between double quotes and the view of a character between
single ones.  Inside, the backslash and the quote itself are escaped, the common control
characters have short escapes, and whatever would not print by itself is written by its code
point.
-/

set_option autoImplicit false

namespace CommandGrammar.Text

/-- A code point in hexadecimal small letters, without leading zeros. -/
def hexDigits (n : Nat) : List Char := Nat.toDigits 16 n

/-- How `c` is written between two `quote` characters. -/
def escapeChar (quote c : Char) : List Char :=
  if c = '\x00' then ['\\', '0']
  else if c = '\t' then ['\\', 't']
  else if c = '\n' then ['\\', 'n']
  else if c = '\r' then ['\\', 'r']
  else if c = '\\' || c = quote then ['\\', c]
  else if isCombining c || isUnprintable c then
    ['\\', 'u', '\x7b'] ++ hexDigits c.toNat ++ ['\x7d']
  else [c]

/-- The debugging view of a string. -/
def quoteString (text : List Char) : List Char :=
  '"' :: (text.map (escapeChar '"')).flatten ++ ['"']

/-- The debugging view of a character. -/
def quoteChar (c : Char) : List Char := '\'' :: escapeChar '\'' c ++ ['\'']

end CommandGrammar.Text
