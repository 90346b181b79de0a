import CommandGrammar.Text.Blank

/-!
# Cursors

A cursor is a text cut in two: what has been read and what is still to be read.  Nothing else is
stored, so a cursor always stands between two characters and never beyond the end.  Its position
is the length in bytes of the part that has been read, in UTF-8.

The reading operations move characters from `rest` to the end of `consumed`; `extend` adds text
behind `rest`; only `seek` moves backwards.
-/

set_option autoImplicit false

namespace CommandGrammar

/-- The length of a text in bytes, in UTF-8. -/
def byteLength : List Char → Nat
  | [] => 0
  | c :: rest => c.utf8Size + byteLength rest

@[simp] theorem byteLength_nil : byteLength [] = 0 := rfl

@[simp] theorem byteLength_cons (c : Char) (text : List Char) :
    byteLength (c :: text) = c.utf8Size + byteLength text := rfl

@[simp] theorem byteLength_append (a b : List Char) :
    byteLength (a ++ b) = byteLength a + byteLength b := by
  induction a with
  | nil => simp
  | cons c rest ih => simp [ih, Nat.add_assoc]

/-- The longest start of a text that fits into `n` bytes. -/
def takeBytes : Nat → List Char → List Char
  | _, [] => []
  | n, c :: rest => if c.utf8Size ≤ n then c :: takeBytes (n - c.utf8Size) rest else []

/-- What follows the longest start of a text that fits into `n` bytes. -/
def dropBytes : Nat → List Char → List Char
  | _, [] => []
  | n, c :: rest => if c.utf8Size ≤ n then dropBytes (n - c.utf8Size) rest else c :: rest

theorem takeBytes_append_dropBytes (n : Nat) (text : List Char) :
    takeBytes n text ++ dropBytes n text = text := by
  induction text generalizing n with
  | nil => rfl
  | cons c rest ih =>
    by_cases h : c.utf8Size ≤ n <;> simp [takeBytes, dropBytes, h, ih]

theorem byteLength_takeBytes_le (n : Nat) (text : List Char) :
    byteLength (takeBytes n text) ≤ n := by
  induction text generalizing n with
  | nil => simp [takeBytes]
  | cons c rest ih =>
    by_cases h : c.utf8Size ≤ n
    · have := ih (n - c.utf8Size)
      simp only [takeBytes, if_pos h, byteLength_cons]
      omega
    · simp [takeBytes, h]

/-- A place in a text. -/
structure Cursor where
  consumed : List Char
  rest : List Char
  deriving DecidableEq, Repr, Inhabited

namespace Cursor

/-- The cursor at the start of a text. -/
def ofText (text : List Char) : Cursor := ⟨[], text⟩

/-- The whole text. -/
def source (c : Cursor) : List Char := c.consumed ++ c.rest

/-- How many bytes have been read. -/
def position (c : Cursor) : Nat := byteLength c.consumed

/-- Whether nothing is left to read. -/
def atEnd (c : Cursor) : Bool := c.rest.isEmpty

/-- The next character. -/
def peek? (c : Cursor) : Option Char := c.rest.head?

/-- Whether the next character is a blank. -/
def atBlank (c : Cursor) : Bool := Text.startsBlank c.rest

/-- The word at the cursor, which is empty at a blank and at the end. -/
def peekWord (c : Cursor) : List Char := Text.firstWord c.rest

/-! ## Reading -/

/-- Reads one character. -/
def next (c : Cursor) : Option Char × Cursor :=
  match c.rest with
  | [] => (none, c)
  | x :: rest => (some x, ⟨c.consumed ++ [x], rest⟩)

/-- Passes over one character. -/
def skipOne (c : Cursor) : Cursor := c.next.2

/-- Reads the longest run of characters that satisfy `p`. -/
def readWhile (p : Char → Bool) (c : Cursor) : List Char × Cursor :=
  (c.rest.takeWhile p, ⟨c.consumed ++ c.rest.takeWhile p, c.rest.dropWhile p⟩)

/-- Passes over all blanks at the cursor. -/
def skipBlanks (c : Cursor) : Cursor := (c.readWhile Text.isBlank).2

/-- Passes over one blank, if the cursor is at one. -/
def skipBlank (c : Cursor) : Cursor := if c.atBlank then c.skipOne else c

/-- Reads up to the next blank. -/
def readWord (c : Cursor) : List Char × Cursor := c.readWhile Text.isInk

/-- Reads everything that is left. -/
def readRest (c : Cursor) : List Char × Cursor := (c.rest, ⟨c.consumed ++ c.rest, []⟩)

/-! ## Changing the text and going back -/

/-- Adds text at the end of the source. -/
def extend (c : Cursor) (text : List Char) : Cursor := { c with rest := c.rest ++ text }

/-- Moves to the last place that is at most `n` bytes from the start. -/
def seek (c : Cursor) (n : Nat) : Cursor := ⟨takeBytes n c.source, dropBytes n c.source⟩

/-! ## What each operation does to the source and to the rest -/

@[simp] theorem source_ofText (text : List Char) : (ofText text).source = text := rfl

@[simp] theorem source_next (c : Cursor) : c.next.2.source = c.source := by
  obtain ⟨consumed, rest⟩ := c
  cases rest <;> simp [next, source]

@[simp] theorem source_readWhile (p : Char → Bool) (c : Cursor) :
    (c.readWhile p).2.source = c.source := by
  simp [readWhile, source, List.takeWhile_append_dropWhile]

@[simp] theorem source_skipBlanks (c : Cursor) : c.skipBlanks.source = c.source :=
  source_readWhile _ c

@[simp] theorem source_readWord (c : Cursor) : c.readWord.2.source = c.source :=
  source_readWhile _ c

@[simp] theorem source_readRest (c : Cursor) : c.readRest.2.source = c.source := by
  simp [readRest, source]

@[simp] theorem source_extend (c : Cursor) (text : List Char) :
    (c.extend text).source = c.source ++ text := by
  simp [extend, source]

@[simp] theorem source_seek (c : Cursor) (n : Nat) : (c.seek n).source = c.source :=
  takeBytes_append_dropBytes n c.source

theorem position_seek_le (c : Cursor) (n : Nat) : (c.seek n).position ≤ n :=
  byteLength_takeBytes_le n c.source

theorem position_le_byteLength_source (c : Cursor) : c.position ≤ byteLength c.source := by
  simp [position, source]

end Cursor

end CommandGrammar
