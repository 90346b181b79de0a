import CommandGrammar.Cursor.Basic

/-!
# Cutting ranges out of a text

`withoutRanges` removes byte ranges from a text and closes the gaps.  The pieces that stay are
put together so that two of them never touch: where neither side of a gap has a blank, a space is
put in, and where the left side has one the blanks at the start of the right side go.  The result
has no blank at either end.
-/

set_option autoImplicit false

namespace CommandGrammar.Text

/-- The bytes from `start` up to but without `stop`. -/
structure ByteRange where
  start : Nat
  stop : Nat
  deriving DecidableEq, Repr, Inhabited

namespace ByteRange

/-- The part of a range that lies in a text of the given length. -/
def clamp (length : Nat) (r : ByteRange) : ByteRange := ⟨min r.start length, min r.stop length⟩

/-- Whether a range has no bytes. -/
def isEmpty (r : ByteRange) : Bool := decide (r.stop ≤ r.start)

end ByteRange

/-- The part of a text between two byte positions. -/
def slice (text : List Char) (start stop : Nat) : List Char :=
  takeBytes (stop - start) (dropBytes start text)

/-- The non-empty pieces from `place` on that lie outside of ranges sorted by their starts. -/
def keptPieces (text : List Char) (place : Nat) : List ByteRange → List (List Char)
  | [] => if place < byteLength text then [dropBytes place text] else []
  | r :: rest =>
    let later := keptPieces text (max place r.stop) rest
    if place < r.start then slice text place r.start :: later else later

/-- Adds a piece behind what has been kept so far. -/
def joinPiece (kept piece : List Char) : List Char :=
  if endsBlank kept then kept ++ trimLeft piece
  else if kept.isEmpty || startsBlank piece then kept ++ piece
  else kept ++ ' ' :: piece

/-- The text without the given ranges, which may overlap and come in any order. -/
def withoutRanges (text : List Char) (ranges : List ByteRange) : List Char :=
  let inside := (ranges.map (ByteRange.clamp (byteLength text))).filter fun r => !r.isEmpty
  let sorted := inside.mergeSort fun a b => decide (a.start ≤ b.start)
  trim ((keptPieces text 0 sorted).foldl joinPiece [])

end CommandGrammar.Text
