import CommandGrammar.Proofs.Cursor.Offsets

/-!
# Runs of operations

Whatever operations are carried out one after the other, and however many of them fail, the place
that they lead to lies between two characters of the source.  Going to an offset is the only way
back, and adding text at the end is the only change of the source.

The operations answer alike on cursors and on byte offsets (`perform_inBytes`).  Offsets are where a
slice could go wrong; along a run that begins at the start of a text none does.
-/

set_option autoImplicit false

namespace CommandGrammar

namespace Cursor

/-- What can be done with a cursor: ask where it is, look at what is unread, read, add text, go to
an offset. -/
inductive Operation where
  | wholeText
  | place
  | isEmpty
  | atEnd
  | peekRest
  | peek
  | atBlank
  | peekWord
  | next
  | skipOne
  | skipBlanks
  | skipBlank
  | readWhile (p : Char → Bool)
  | readWord
  | readUntil (delimiter : Char)
  | readText
  | readRest
  | readInt
  | readFloat
  | readBool
  | extend (text : List Char)
  | seek (n : Nat)

/-- What an operation gives back. -/
inductive Answer where
  | done
  | place (n : Nat)
  | flag (b : Bool)
  | char (x : Option Char)
  | text (t : List Char)
  | quoted (r : Except InputFault (List Char))
  | int (r : Except CommandError Int64)
  | float (r : Except CommandError Numeric.Binary64)
  | truth (r : Except CommandError Bool)

/-- The text that an operation adds to the source. -/
def Operation.added : Operation → List Char
  | .extend text => text
  | _ => []

/-- Carries out an operation. -/
def perform (c : Cursor) : Operation → Answer × Cursor
  | .wholeText => (.text c.source, c)
  | .place => (.place c.position, c)
  | .isEmpty => (.flag c.source.isEmpty, c)
  | .atEnd => (.flag c.atEnd, c)
  | .peekRest => (.text c.rest, c)
  | .peek => (.char c.peek?, c)
  | .atBlank => (.flag c.atBlank, c)
  | .peekWord => (.text c.peekWord, c)
  | .next => (.char c.next.1, c.next.2)
  | .skipOne => (.done, c.skipOne)
  | .skipBlanks => (.done, c.skipBlanks)
  | .skipBlank => (.done, c.skipBlank)
  | .readWhile p => (.text (c.readWhile p).1, (c.readWhile p).2)
  | .readWord => (.text c.readWord.1, c.readWord.2)
  | .readUntil delimiter => (.quoted (c.readUntil delimiter).1, (c.readUntil delimiter).2)
  | .readText => (.quoted c.readText.1, c.readText.2)
  | .readRest => (.text c.readRest.1, c.readRest.2)
  | .readInt => (.int c.readInt.1, c.readInt.2)
  | .readFloat => (.float c.readFloat.1, c.readFloat.2)
  | .readBool => (.truth c.readBool.1, c.readBool.2)
  | .extend text => (.done, c.extend text)
  | .seek n => (.done, c.seek n)

/-- Carries out operations one after the other. -/
def run (c : Cursor) (ops : List Operation) : Cursor := ops.foldl (fun c op => (c.perform op).2) c

end Cursor

namespace ByteCursor

open Cursor (Operation Answer)

/-- Carries out an operation on an offset; `none` where there is no text to be cut out. -/
def perform (b : ByteCursor) : Operation → Option (Answer × ByteCursor)
  | .wholeText => some (.text b.text.toList, b)
  | .place => some (.place b.offset, b)
  | .isEmpty => some (.flag b.text.isEmpty, b)
  | .atEnd => some (.flag b.atEnd, b)
  | .peekRest => b.rest?.map fun rest => (.text rest, b)
  | .peek => b.peek.map fun x => (.char x, b)
  | .atBlank => b.atBlank.map fun blank => (.flag blank, b)
  | .peekWord => b.peekWord.map fun word => (.text word, b)
  | .next => b.next.map fun r => (.char r.1, r.2)
  | .skipOne => b.next.map fun r => (.done, r.2)
  | .skipBlanks => b.skipBlanks.map fun after => (.done, after)
  | .skipBlank => b.skipBlank.map fun after => (.done, after)
  | .readWhile p => (b.readWhile p).map fun r => (.text r.1, r.2)
  | .readWord => b.readWord.map fun r => (.text r.1, r.2)
  | .readUntil delimiter => (b.readUntil delimiter).map fun r => (.quoted r.1, r.2)
  | .readText => b.readText.map fun r => (.quoted r.1, r.2)
  | .readRest => b.readRest.map fun r => (.text r.1, r.2)
  | .readInt => b.readWord.map fun r => (.int (Cursor.integerOf r.1), r.2)
  | .readFloat => b.readWord.map fun r => (.float (Cursor.floatOf r.1), r.2)
  | .readBool => b.readText.map fun r => (.truth (Cursor.truthOf r.1), r.2)
  | .extend text => some (.done, b.extend text)
  | .seek n => some (.done, b.seek n)

/-- Carries out operations one after the other, as long as there is a text wherever one is cut out. -/
def run? (b : ByteCursor) : List Operation → Option ByteCursor
  | [] => some b
  | op :: ops => (b.perform op).bind fun r => r.2.run? ops

end ByteCursor

namespace Cursor

/-! ## One operation -/

/-- An operation on the bytes of a cursor cuts out every text that it wants, and answers and ends as
the operation on the cursor. -/
theorem perform_inBytes (c : Cursor) (op : Operation) :
    c.inBytes.perform op = some ((c.perform op).1, (c.perform op).2.inBytes) := by
  have hword : c.inBytes.readWord = some (c.readWord.1, c.readWord.2.inBytes) :=
    readWhile_inBytes Text.isInk c
  cases op with
  | wholeText => simp [ByteCursor.perform, perform, inBytes]
  | place => simp [ByteCursor.perform, perform, inBytes]
  | isEmpty => simp [ByteCursor.perform, perform, isEmpty_inBytes]
  | atEnd => simp [ByteCursor.perform, perform, atEnd_inBytes]
  | peekRest => simp [ByteCursor.perform, perform, rest?_inBytes]
  | peek => simp [ByteCursor.perform, perform, peek_inBytes]
  | atBlank => simp [ByteCursor.perform, perform, atBlank_inBytes]
  | peekWord => simp [ByteCursor.perform, perform, peekWord_inBytes]
  | next => simp [ByteCursor.perform, perform, next_inBytes]
  | skipOne => simp [ByteCursor.perform, perform, next_inBytes, skipOne]
  | skipBlanks =>
    simp [ByteCursor.perform, perform, ByteCursor.skipBlanks, passWhile_inBytes, skipBlanks]
  | skipBlank => simp [ByteCursor.perform, perform, skipBlank_inBytes]
  | readWhile p => simp [ByteCursor.perform, perform, readWhile_inBytes]
  | readWord => simp [ByteCursor.perform, perform, hword]
  | readUntil delimiter => simp [ByteCursor.perform, perform, readUntil_inBytes]
  | readText => simp [ByteCursor.perform, perform, readText_inBytes]
  | readRest => simp [ByteCursor.perform, perform, readRest_inBytes]
  | readInt => simp [ByteCursor.perform, perform, hword, readInt_eq]
  | readFloat => simp [ByteCursor.perform, perform, hword, readFloat_eq]
  | readBool => simp [ByteCursor.perform, perform, readText_inBytes, readBool_eq]
  | extend text => simp [ByteCursor.perform, perform, extend_inBytes]
  | seek n => simp [ByteCursor.perform, perform, seek_inBytes]

/-- An operation that neither adds text nor goes to an offset moves on in the source. -/
theorem onward_perform (c : Cursor) {op : Operation} (hextend : ∀ text, op ≠ .extend text)
    (hseek : ∀ n, op ≠ .seek n) : c.Onward (c.perform op).2 := by
  cases op with
  | wholeText => exact .refl c
  | place => exact .refl c
  | isEmpty => exact .refl c
  | atEnd => exact .refl c
  | peekRest => exact .refl c
  | peek => exact .refl c
  | atBlank => exact .refl c
  | peekWord => exact .refl c
  | next => exact onward_next c
  | skipOne => exact onward_next c
  | skipBlanks => exact onward_skipBlanks c
  | skipBlank => exact onward_skipBlank c
  | readWhile p => exact onward_readWhile p c
  | readWord => exact onward_readWord c
  | readUntil delimiter => exact onward_readUntil delimiter c
  | readText => exact onward_readText c
  | readRest => exact onward_readRest c
  | readInt => exact onward_readInt c
  | readFloat => exact onward_readFloat c
  | readBool => exact onward_readBool c
  | extend text => exact absurd rfl (hextend text)
  | seek n => exact absurd rfl (hseek n)

/-- An operation keeps the source, but for the text that it adds at the end. -/
theorem source_perform (c : Cursor) (op : Operation) :
    (c.perform op).2.source = c.source ++ op.added := by
  cases op with
  | extend text => exact source_extend c text
  | seek n => exact (source_seek c n).trans (List.append_nil _).symm
  | _ => exact (onward_perform c (by simp) (by simp)).source.trans (List.append_nil _).symm

/-- Only going to an offset goes back. -/
theorem position_le_perform (c : Cursor) {op : Operation} (hseek : ∀ n, op ≠ .seek n) :
    c.position ≤ (c.perform op).2.position := by
  cases op with
  | extend text => exact Nat.le_refl _
  | seek n => exact absurd rfl (hseek n)
  | _ => exact (onward_perform c (by simp) hseek).position

/-! ## Runs -/

theorem run_inBytes (ops : List Operation) (c : Cursor) :
    c.inBytes.run? ops = some (c.run ops).inBytes := by
  induction ops generalizing c with
  | nil => rfl
  | cons op ops ih =>
    rw [ByteCursor.run?, perform_inBytes]
    exact ih (c.perform op).2

theorem source_run (ops : List Operation) (c : Cursor) :
    (c.run ops).source = c.source ++ ops.flatMap Operation.added := by
  induction ops generalizing c with
  | nil => exact (List.append_nil _).symm
  | cons op ops ih =>
    have hlater : (c.run (op :: ops)).source
        = (c.perform op).2.source ++ ops.flatMap Operation.added := ih (c.perform op).2
    rw [hlater, source_perform, List.flatMap_cons, List.append_assoc]

/-- What holds of a cursor wherever operations may lead it to. -/
structure Sound (c : Cursor) : Prop where
  /-- the place is not behind the end of the source -/
  inside : c.position ≤ (String.ofList c.source).utf8ByteSize
  /-- nor is it within a character -/
  boundary : Utf8.IsBoundary (String.ofList c.source) c.position
  /-- on the byte offset, no operation fails to cut out a text, and each one answers and ends alike -/
  sliced : ∀ op, c.inBytes.perform op = some ((c.perform op).1, (c.perform op).2.inBytes)
  /-- only adding text changes the source, and only at its end -/
  source : ∀ op, (c.perform op).2.source = c.source ++ op.added
  /-- only going to an offset goes back -/
  forward : ∀ op, (∀ n, op ≠ .seek n) → c.position ≤ (c.perform op).2.position
  /-- going to an offset stops at the last boundary that is not behind it or the end -/
  seek : ∀ n, IsGreatest {m | Utf8.IsBoundary (String.ofList c.source) m ∧ m ≤ n
    ∧ m ≤ (String.ofList c.source).utf8ByteSize} (c.seek n).position
  /-- a word that is read is what the source has between the two places -/
  readWord : Utf8.slice? (String.ofList c.source) c.position c.readWord.2.position
    = some c.readWord.1
  /-- and so is all that is left -/
  readRest : Utf8.slice? (String.ofList c.source) c.position c.readRest.2.position
    = some c.readRest.1
  /-- the word that is looked at is the one that would be read -/
  peekWord : c.peekWord = c.readWord.1

theorem sound (c : Cursor) : c.Sound where
  inside := (isBoundary_position c).le_utf8ByteSize
  boundary := isBoundary_position c
  sliced := perform_inBytes c
  source := source_perform c
  forward _ hseek := position_le_perform c hseek
  seek n := by
    have hgreatest := isGreatest_seek c n
    refine ⟨⟨hgreatest.1.1, hgreatest.1.2, hgreatest.1.1.le_utf8ByteSize⟩, fun m hm => ?_⟩
    exact hgreatest.2 ⟨hm.1, hm.2.1⟩
  readWord := slice?_of_onward (onward_readWord c) (Text.firstWord_append_afterWord c.rest).symm
  readRest := slice?_of_onward (onward_readRest c) (List.append_nil c.rest).symm
  peekWord := rfl

/-- From the start of any text, any operations, failing ones included, lead a byte offset to the
place to which they lead a cursor, and none of them cuts within a character on the way.  The source
is then the text with what has been added to it in order, and wherever operations lead, the next one
finds a sound cursor. -/
theorem operations_sound (text : List Char) (ops : List Operation) :
    (ByteCursor.ofText text).run? ops = some ((ofText text).run ops).inBytes
      ∧ ((ofText text).run ops).source = text ++ ops.flatMap Operation.added
      ∧ ((ofText text).run ops).Sound :=
  ⟨run_inBytes ops (ofText text), source_run ops (ofText text), sound _⟩

/-- The offset 2 lies within the second character, which begins at 1. -/
example : ((ofText "héllo wörld".toList).run [.readRest, .seek 2]).position = 1 := by decide

/-- From within a character there is nothing to be cut out. -/
example : (ByteCursor.mk "héllo" 2).perform .peek = none := by decide

end Cursor

end CommandGrammar
