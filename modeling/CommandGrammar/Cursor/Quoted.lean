import CommandGrammar.Cursor.Basic
import CommandGrammar.Error

/-!
# Quoted text

Quoted text runs up to an unescaped delimiter.  A backslash escapes the delimiter and itself, and
must not stand before any other character.  `Quoted.scan` reads it and `Quoted.encode` writes it;
reading what was written gives the text back, whatever follows the closing delimiter.
-/

set_option autoImplicit false

namespace CommandGrammar

namespace Quoted

/-- The result of a scan: the text or a fault, what was passed over, and what is left. -/
structure Scan where
  result : Except InputFault (List Char)
  passed : List Char
  left : List Char

/-- Reads up to and over the first unescaped `delimiter`.  A bad escape leaves the character after
the backslash unread; a missing delimiter leaves nothing. -/
def scan (delimiter : Char) : List Char → Scan
  | [] => ⟨.error .unclosedQuote, [], []⟩
  | c :: text =>
    if c = '\\' then
      match text with
      | [] => ⟨.error .unclosedQuote, [c], []⟩
      | e :: rest =>
        if e = delimiter ∨ e = '\\' then
          let s := scan delimiter rest
          ⟨s.result.map (e :: ·), c :: e :: s.passed, s.left⟩
        else ⟨.error .badEscape, [c], e :: rest⟩
    else if c = delimiter then ⟨.ok [], [c], text⟩
    else
      let s := scan delimiter text
      ⟨s.result.map (c :: ·), c :: s.passed, s.left⟩

/-- Writes a text so that it ends at the first unescaped `delimiter`. -/
def encode (delimiter : Char) : List Char → List Char
  | [] => [delimiter]
  | c :: text =>
    if c = delimiter ∨ c = '\\' then '\\' :: c :: encode delimiter text
    else c :: encode delimiter text

/-- A character other than the backslash stands for itself or closes the text. -/
theorem scan_cons_of_ne {c : Char} (hc : c ≠ '\\') (delimiter : Char) (text : List Char) :
    scan delimiter (c :: text)
      = if c = delimiter then ⟨.ok [], [c], text⟩
        else ⟨(scan delimiter text).result.map (c :: ·), c :: (scan delimiter text).passed,
          (scan delimiter text).left⟩ := by
  cases text <;> simp [scan, hc]

theorem passed_append_left (delimiter : Char) (text : List Char) :
    (scan delimiter text).passed ++ (scan delimiter text).left = text := by
  fun_induction scan delimiter text with
  | case1 => rfl
  | case2 => rfl
  | case3 e rest _ s ih => simpa [s] using ih
  | case4 => rfl
  | case5 => rfl
  | case6 c text _ _ s ih => simpa [s] using ih

/-- Reading what was written gives the text back and stops right behind it. -/
theorem scan_encode (delimiter : Char) (hd : delimiter ≠ '\\') (text after : List Char) :
    scan delimiter (encode delimiter text ++ after)
      = ⟨.ok text, encode delimiter text, after⟩ := by
  induction text with
  | nil => simp [encode, scan_cons_of_ne hd]
  | cons c text ih =>
    by_cases h : c = delimiter ∨ c = '\\'
    · simp [encode, h, scan, ih, Except.map]
    · have hc := not_or.mp h
      simp [encode, scan_cons_of_ne hc.2, ih, hc.1, hc.2, Except.map]

end Quoted

namespace Cursor

/-- Reads up to and over the first unescaped `delimiter`. -/
def readUntil (delimiter : Char) (c : Cursor) : Except InputFault (List Char) × Cursor :=
  let s := Quoted.scan delimiter c.rest
  (s.result, ⟨c.consumed ++ s.passed, s.left⟩)

/-- Reads a quoted text where the cursor is at a double quote, and a word otherwise. -/
def readText (c : Cursor) : Except InputFault (List Char) × Cursor :=
  if c.peek? = some '"' then c.skipOne.readUntil '"'
  else
    let (word, after) := c.readWord
    (.ok word, after)

@[simp] theorem source_readUntil (delimiter : Char) (c : Cursor) :
    (c.readUntil delimiter).2.source = c.source := by
  simp [readUntil, source, Quoted.passed_append_left]

@[simp] theorem source_readText (c : Cursor) : c.readText.2.source = c.source := by
  unfold readText
  split
  · simp [skipOne]
  · exact source_readWord c

end Cursor

end CommandGrammar
