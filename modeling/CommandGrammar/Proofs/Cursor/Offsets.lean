import CommandGrammar.Proofs.Cursor.Movement
import CommandGrammar.Proofs.Text.Coverage
import Mathlib.Order.Bounds.Basic

/-!
# Byte offsets

A cursor cuts a text between two characters.  A `ByteCursor` keeps the same place as a number of
bytes into the UTF-8 of the text.  Nothing about a number keeps it within the text, or out of the
middle of a character; where it is wrong, there is no text to be cut out, and `Utf8.slice?` is
`none`.

The operations here do arithmetic on offsets: a character that is read moves the offset by its size,
a bad escape moves it back by that much, and going to a place looks for a boundary downwards.  Each
of them does to the bytes of a cursor what the operation of that name does to the cursor, so from
such an offset none of the texts that it cuts out is missing.
-/

set_option autoImplicit false

namespace CommandGrammar

open Text (AtCharacter)

/-! ## Boundaries in UTF-8 -/

namespace Utf8

/-- Whether the first `n` bytes of a text are whole characters. -/
def IsBoundary (text : String) (n : Nat) : Prop := (String.Pos.Raw.mk n).IsValid text

instance (text : String) (n : Nat) : Decidable (IsBoundary text n) :=
  inferInstanceAs (Decidable ((String.Pos.Raw.mk n).IsValid text))

/-- The characters between two offsets, if these are boundaries. -/
def slice? (text : String) (start stop : Nat) : Option (List Char) :=
  if start ≤ stop ∧ IsBoundary text start ∧ IsBoundary text stop then
    (text.toByteArray.extract start stop).utf8Decode?.map Array.toList
  else none

/-- The last boundary among the first `n` offsets, found by going down from `n`. -/
def floor (text : String) : Nat → Nat
  | 0 => 0
  | n + 1 => if IsBoundary text (n + 1) then n + 1 else floor text n

theorem size_utf8Encode (text : List Char) : text.utf8Encode.size = byteLength text := by
  induction text with
  | nil => rfl
  | cons c rest ih =>
    rw [List.utf8Encode_cons, ByteArray.size_append, ih, byteLength_cons, List.utf8Encode_singleton]
    simp

theorem utf8ByteSize_ofList (text : List Char) :
    (String.ofList text).utf8ByteSize = byteLength text := by
  rw [String.utf8ByteSize, String.toByteArray_ofList, size_utf8Encode]

theorem isBoundary_ofList_iff {text : List Char} {n : Nat} :
    IsBoundary (String.ofList text) n ↔ AtCharacter text n := by
  rw [IsBoundary, String.Pos.Raw.isValid_iff_exists_append]
  constructor
  · rintro ⟨front, back, hsplit, hn⟩
    refine ⟨front.toList, back.toList, ?_, ?_⟩
    · rw [← String.toList_append, ← hsplit, String.toList_ofList]
    · rw [← utf8ByteSize_ofList, String.ofList_toList]
      exact (congrArg String.Pos.Raw.byteIdx hn).symm
  · rintro ⟨front, back, rfl, rfl⟩
    refine ⟨String.ofList front, String.ofList back, String.ofList_append, ?_⟩
    rw [String.rawEndPos, utf8ByteSize_ofList]

theorem isBoundary_zero (text : String) : IsBoundary text 0 := by
  rw [← String.ofList_toList (s := text), isBoundary_ofList_iff]
  exact ⟨[], text.toList, rfl, rfl⟩

theorem IsBoundary.le_utf8ByteSize {text : String} {n : Nat} (h : IsBoundary text n) :
    n ≤ text.utf8ByteSize :=
  String.Pos.Raw.IsValid.le_utf8ByteSize h

/-- The part of a text between two places is cut out of its bytes. -/
theorem slice?_append (front middle back : List Char) :
    slice? (String.ofList (front ++ (middle ++ back))) (byteLength front)
        (byteLength front + byteLength middle)
      = some middle := by
  have hstart : AtCharacter (front ++ (middle ++ back)) (byteLength front) := ⟨_, _, rfl, rfl⟩
  have hstop : AtCharacter (front ++ (middle ++ back)) (byteLength front + byteLength middle) :=
    ⟨front ++ middle, back, (List.append_assoc _ _ _).symm, byteLength_append _ _⟩
  have hbytes : ((front ++ (middle ++ back)).utf8Encode).extract (byteLength front)
      (byteLength front + byteLength middle) = middle.utf8Encode := by
    rw [List.utf8Encode_append, List.utf8Encode_append, ← size_utf8Encode, ← size_utf8Encode]
    calc (front.utf8Encode ++ (middle.utf8Encode ++ back.utf8Encode)).extract
          (front.utf8Encode.size + 0) (front.utf8Encode.size + middle.utf8Encode.size)
        = (middle.utf8Encode ++ back.utf8Encode).extract 0 middle.utf8Encode.size :=
          ByteArray.extract_append_size_add
      _ = middle.utf8Encode := ByteArray.extract_append_eq_left rfl
  rw [slice?, if_pos ⟨Nat.le_add_right _ _, isBoundary_ofList_iff.mpr hstart,
    isBoundary_ofList_iff.mpr hstop⟩, String.toByteArray_ofList, hbytes, List.utf8Decode?_utf8Encode]
  rfl

/-- Nothing lies between a place and itself. -/
theorem slice?_self {text : String} {n : Nat} {x : Char} {rest : List Char} :
    slice? text n n ≠ some (x :: rest) := by
  unfold slice?
  split
  · rw [ByteArray.extract_same, ByteArray.utf8Decode?_empty]
    simp
  · simp

theorem isGreatest_floor (text : String) (n : Nat) :
    IsGreatest {m | IsBoundary text m ∧ m ≤ n} (floor text n) := by
  induction n with
  | zero => exact ⟨⟨isBoundary_zero text, Nat.le_refl 0⟩, fun m hm => hm.2⟩
  | succ n ih =>
    rw [floor]
    split
    next hboundary => exact ⟨⟨hboundary, Nat.le_refl _⟩, fun m hm => hm.2⟩
    next hinside =>
      refine ⟨⟨ih.1.1, Nat.le_succ_of_le ih.1.2⟩, fun m hm => ih.2 ⟨hm.1, ?_⟩⟩
      have hne : m ≠ n + 1 := by
        rintro rfl
        exact hinside hm.1
      have hle := hm.2
      omega

end Utf8

/-! ## Operations on offsets -/

/-- A text in UTF-8 and a number of bytes. -/
structure ByteCursor where
  text : String
  offset : Nat
  deriving DecidableEq, Repr

namespace ByteCursor

def ofText (text : List Char) : ByteCursor := ⟨String.ofList text, 0⟩

/-- Whether the offset is that of the end of the text, or a larger one. -/
def atEnd (b : ByteCursor) : Bool := decide (b.text.utf8ByteSize ≤ b.offset)

/-- The unread text. -/
def rest? (b : ByteCursor) : Option (List Char) :=
  Utf8.slice? b.text b.offset b.text.utf8ByteSize

/-- The next character, if there is one. -/
def peek (b : ByteCursor) : Option (Option Char) := b.rest?.map List.head?

def atBlank (b : ByteCursor) : Option Bool := b.peek.map (Option.any Text.isBlank)

/-- The word at the offset, up to the first blank of the unread text. -/
def peekWord (b : ByteCursor) : Option (List Char) :=
  b.rest?.bind fun rest =>
    Utf8.slice? (String.ofList rest) 0 (byteLength (rest.takeWhile Text.isInk))

/-- The offset behind a character. -/
def past (b : ByteCursor) (x : Char) : ByteCursor := { b with offset := b.offset + x.utf8Size }

def next (b : ByteCursor) : Option (Option Char × ByteCursor) :=
  b.peek.map fun
    | none => (none, b)
    | some x => (some x, b.past x)

theorem offset_lt_of_peek {b : ByteCursor} {x : Char} (h : b.peek = some (some x)) :
    b.offset < b.text.utf8ByteSize := by
  obtain ⟨rest, hrest, hhead⟩ := Option.map_eq_some_iff.mp h
  cases rest with
  | nil => cases hhead
  | cons y rest =>
    have hle : b.offset ≤ b.text.utf8ByteSize := by
      by_contra hbehind
      rw [rest?, Utf8.slice?, if_neg (by omega)] at hrest
      cases hrest
    refine Nat.lt_of_le_of_ne hle fun hend => ?_
    rw [rest?, hend] at hrest
    exact Utf8.slice?_self hrest

/-- Each character has a size, so a loop that reads one in every turn comes to an end. -/
theorem unread_past_lt {b : ByteCursor} {x : Char} (h : b.peek = some (some x)) :
    (b.past x).text.utf8ByteSize - (b.past x).offset < b.text.utf8ByteSize - b.offset := by
  have hlt := offset_lt_of_peek h
  have hsize := x.utf8Size_pos
  dsimp only [past]
  omega

/-- Passes over characters that satisfy `p`, one by one. -/
def passWhile (p : Char → Bool) (b : ByteCursor) : Option ByteCursor :=
  match _hpeek : b.peek with
  | none => none
  | some none => some b
  | some (some x) => if p x then (b.past x).passWhile p else some b
termination_by b.text.utf8ByteSize - b.offset
decreasing_by exact unread_past_lt _hpeek

theorem passWhile_of_end {p : Char → Bool} {b : ByteCursor} (h : b.peek = some none) :
    b.passWhile p = some b := by
  rw [passWhile]
  split <;> simp_all

theorem passWhile_of_peek {p : Char → Bool} {b : ByteCursor} {x : Char}
    (h : b.peek = some (some x)) :
    b.passWhile p = if p x then (b.past x).passWhile p else some b := by
  rw [passWhile]
  split <;> simp_all

/-- Passes over characters that satisfy `p` and cuts out what has been passed over. -/
def readWhile (p : Char → Bool) (b : ByteCursor) : Option (List Char × ByteCursor) :=
  (b.passWhile p).bind fun after =>
    (Utf8.slice? b.text b.offset after.offset).map fun word => (word, after)

def skipBlanks (b : ByteCursor) : Option ByteCursor := b.passWhile Text.isBlank

def skipBlank (b : ByteCursor) : Option ByteCursor :=
  b.atBlank.bind fun blank => if blank then b.next.map Prod.snd else some b

def readWord (b : ByteCursor) : Option (List Char × ByteCursor) := b.readWhile Text.isInk

def readRest (b : ByteCursor) : Option (List Char × ByteCursor) :=
  b.rest?.map fun rest => (rest, { b with offset := b.text.utf8ByteSize })

/-- Reads up to and over `delimiter`, character by character, where `read` has been read so far.  A
character that must not be escaped is gone back over. -/
def scan (delimiter : Char) (escaped : Bool) (read : List Char) (b : ByteCursor) :
    Option (Except InputFault (List Char) × ByteCursor) :=
  match _hpeek : b.peek with
  | none => none
  | some none => some (.error .unclosedQuote, b)
  | some (some x) =>
    if escaped then
      if x = delimiter ∨ x = '\\' then (b.past x).scan delimiter false (read ++ [x])
      else some (.error .badEscape, { b with offset := (b.past x).offset - x.utf8Size })
    else if x = '\\' then (b.past x).scan delimiter true read
    else if x = delimiter then some (.ok read, b.past x)
    else (b.past x).scan delimiter false (read ++ [x])
termination_by b.text.utf8ByteSize - b.offset
decreasing_by all_goals exact unread_past_lt _hpeek

section Scan

variable {delimiter x : Char} {read : List Char} {b : ByteCursor}

theorem scan_of_end {escaped : Bool} (h : b.peek = some none) :
    b.scan delimiter escaped read = some (.error .unclosedQuote, b) := by
  rw [scan]
  split <;> simp_all

theorem scan_of_peek (h : b.peek = some (some x)) :
    b.scan delimiter false read
      = if x = '\\' then (b.past x).scan delimiter true read
        else if x = delimiter then some (.ok read, b.past x)
        else (b.past x).scan delimiter false (read ++ [x]) := by
  rw [scan]
  split <;> simp_all

/-- Behind a backslash, a character that must not be escaped is left where it is. -/
theorem scan_escaped_of_peek (h : b.peek = some (some x)) :
    b.scan delimiter true read
      = if x = delimiter ∨ x = '\\' then (b.past x).scan delimiter false (read ++ [x])
        else some (.error .badEscape, b) := by
  rw [scan]
  split <;> simp_all [past]

end Scan

def readUntil (delimiter : Char) (b : ByteCursor) :
    Option (Except InputFault (List Char) × ByteCursor) :=
  b.scan delimiter false []

def readText (b : ByteCursor) : Option (Except InputFault (List Char) × ByteCursor) :=
  b.peek.bind fun x =>
    if x = some '"' then b.next.bind fun r => r.2.readUntil '"'
    else b.readWord.map fun r => (.ok r.1, r.2)

def extend (b : ByteCursor) (text : List Char) : ByteCursor :=
  { b with text := b.text ++ String.ofList text }

/-- Goes to an offset, or to the nearest boundary in front of it. -/
def seek (b : ByteCursor) (n : Nat) : ByteCursor :=
  { b with offset := Utf8.floor b.text (min n b.text.utf8ByteSize) }

end ByteCursor

/-! ## The bytes of a cursor -/

namespace Cursor

/-- The place of a cursor as a number of bytes. -/
def inBytes (c : Cursor) : ByteCursor := ⟨String.ofList c.source, c.position⟩

theorem isBoundary_position (c : Cursor) :
    Utf8.IsBoundary (String.ofList c.source) c.position :=
  Utf8.isBoundary_ofList_iff.mpr ⟨c.consumed, c.rest, rfl, rfl⟩

/-- What has been passed over is what stands between the two places in the source. -/
theorem slice?_of_onward {c after : Cursor} (h : c.Onward after) {taken : List Char}
    (hrest : c.rest = taken ++ after.rest) :
    Utf8.slice? (String.ofList c.source) c.position after.position = some taken := by
  obtain ⟨passed, hpassed, hconsumed⟩ := onward_iff.mp h
  have hsame : passed = taken := List.append_cancel_right (hpassed.symm.trans hrest)
  rw [hsame] at hconsumed
  rw [source, position, position, hrest, hconsumed, byteLength_append]
  exact Utf8.slice?_append c.consumed taken after.rest

theorem rest?_inBytes (c : Cursor) : c.inBytes.rest? = some c.rest := by
  have hslice := slice?_of_onward (onward_readRest c) (List.append_nil c.rest).symm
  rw [ByteCursor.rest?, inBytes, Utf8.utf8ByteSize_ofList]
  exact hslice

theorem peek_inBytes (c : Cursor) : c.inBytes.peek = some c.peek? := by
  rw [ByteCursor.peek, rest?_inBytes]
  rfl

theorem isEmpty_inBytes (c : Cursor) : c.inBytes.text.isEmpty = c.source.isEmpty := by
  rw [inBytes, Bool.eq_iff_iff, String.isEmpty_iff, List.isEmpty_iff, String.ofList_eq_empty_iff]

theorem atEnd_inBytes (c : Cursor) : c.inBytes.atEnd = c.atEnd := by
  obtain ⟨consumed, rest⟩ := c
  rw [ByteCursor.atEnd, inBytes, Utf8.utf8ByteSize_ofList, source, position, byteLength_append]
  cases rest with
  | nil => simp [atEnd]
  | cons x rest =>
    have hsize := x.utf8Size_pos
    refine decide_eq_false ?_
    dsimp only
    rw [byteLength_cons]
    omega

theorem atBlank_inBytes (c : Cursor) : c.inBytes.atBlank = some c.atBlank := by
  rw [ByteCursor.atBlank, peek_inBytes, atBlank, peek?]
  cases c.rest <;> rfl

theorem peekWord_inBytes (c : Cursor) : c.inBytes.peekWord = some c.peekWord := by
  have hword := slice?_of_onward (onward_readWord (ofText c.rest))
    (Text.firstWord_append_afterWord c.rest).symm
  rw [ByteCursor.peekWord, rest?_inBytes]
  exact hword

theorem past_inBytes (consumed rest : List Char) (x : Char) :
    (Cursor.mk consumed (x :: rest)).inBytes.past x
      = (Cursor.mk (consumed ++ [x]) rest).inBytes := by
  simp [ByteCursor.past, inBytes, source, position]

theorem next_inBytes (c : Cursor) : c.inBytes.next = some (c.next.1, c.next.2.inBytes) := by
  obtain ⟨consumed, rest⟩ := c
  rw [ByteCursor.next, peek_inBytes]
  cases rest with
  | nil => rfl
  | cons x rest => exact congrArg (fun b => some (some x, b)) (past_inBytes consumed rest x)

theorem passWhile_inBytes (p : Char → Bool) (c : Cursor) :
    c.inBytes.passWhile p = some (c.readWhile p).2.inBytes := by
  obtain ⟨consumed, rest⟩ := c
  induction rest generalizing consumed with
  | nil =>
    rw [ByteCursor.passWhile_of_end (peek_inBytes _)]
    simp [readWhile]
  | cons x rest ih =>
    rw [ByteCursor.passWhile_of_peek (peek_inBytes _)]
    by_cases hx : p x = true
    · simp [readWhile, hx, past_inBytes, ih]
    · simp [readWhile, hx]

theorem readWhile_inBytes (p : Char → Bool) (c : Cursor) :
    c.inBytes.readWhile p = some ((c.readWhile p).1, (c.readWhile p).2.inBytes) := by
  have hword := slice?_of_onward (onward_readWhile p c) List.takeWhile_append_dropWhile.symm
  rw [ByteCursor.readWhile, passWhile_inBytes]
  exact congrArg (Option.map fun word => (word, (c.readWhile p).2.inBytes)) hword

theorem skipBlank_inBytes (c : Cursor) : c.inBytes.skipBlank = some c.skipBlank.inBytes := by
  rw [ByteCursor.skipBlank, atBlank_inBytes, next_inBytes, skipBlank]
  cases c.atBlank <;> rfl

theorem readRest_inBytes (c : Cursor) :
    c.inBytes.readRest = some (c.readRest.1, c.readRest.2.inBytes) := by
  rw [ByteCursor.readRest, rest?_inBytes]
  simp [readRest, inBytes, Utf8.utf8ByteSize_ofList, source, position]

theorem map_append_cons (read : List Char) (x : Char) (r : Except InputFault (List Char)) :
    r.map (read ++ [x] ++ ·) = (r.map (x :: ·)).map (read ++ ·) := by
  cases r <;> simp [Except.map]

/-- What has been read so far stands in front of what is read. -/
theorem scan_inBytes (delimiter : Char) (read consumed rest : List Char) :
    (Cursor.mk consumed rest).inBytes.scan delimiter false read
      = some ((Quoted.scan delimiter rest).result.map (read ++ ·),
          (Cursor.mk (consumed ++ (Quoted.scan delimiter rest).passed)
            (Quoted.scan delimiter rest).left).inBytes) := by
  fun_induction Quoted.scan delimiter rest generalizing consumed read with
  | case1 =>
    rw [ByteCursor.scan_of_end (peek_inBytes _)]
    simp [Except.map]
  | case2 =>
    rw [ByteCursor.scan_of_peek (peek_inBytes _), if_pos rfl, past_inBytes,
      ByteCursor.scan_of_end (peek_inBytes _)]
    rfl
  | case3 e rest he s ih =>
    rw [ByteCursor.scan_of_peek (peek_inBytes _), if_pos rfl, past_inBytes,
      ByteCursor.scan_escaped_of_peek (peek_inBytes _), if_pos he, past_inBytes, ih,
      map_append_cons]
    simp [s]
  | case4 e rest he =>
    rw [ByteCursor.scan_of_peek (peek_inBytes _), if_pos rfl, past_inBytes,
      ByteCursor.scan_escaped_of_peek (peek_inBytes _), if_neg he]
    rfl
  | case5 rest hc =>
    rw [ByteCursor.scan_of_peek (peek_inBytes _), if_neg hc, if_pos rfl, past_inBytes]
    simp [Except.map]
  | case6 c text hc hd s ih =>
    rw [ByteCursor.scan_of_peek (peek_inBytes _), if_neg hc, if_neg hd, past_inBytes, ih,
      map_append_cons]
    simp [s]

theorem readUntil_inBytes (delimiter : Char) (c : Cursor) :
    c.inBytes.readUntil delimiter
      = some ((c.readUntil delimiter).1, (c.readUntil delimiter).2.inBytes) := by
  obtain ⟨consumed, rest⟩ := c
  rw [ByteCursor.readUntil, scan_inBytes]
  unfold readUntil
  dsimp only
  cases (Quoted.scan delimiter rest).result <;> rfl

theorem readText_inBytes (c : Cursor) :
    c.inBytes.readText = some (c.readText.1, c.readText.2.inBytes) := by
  rw [ByteCursor.readText, peek_inBytes, Option.bind_some, readText]
  by_cases hquote : c.peek? = some '"'
  · rw [if_pos hquote, if_pos hquote, next_inBytes]
    exact readUntil_inBytes '"' c.skipOne
  · rw [if_neg hquote, if_neg hquote, ByteCursor.readWord, readWhile_inBytes]
    rfl

theorem extend_inBytes (c : Cursor) (text : List Char) :
    c.inBytes.extend text = (c.extend text).inBytes := by
  simp [ByteCursor.extend, inBytes, extend, source, position, String.append_assoc]

/-! ## Going to a place -/

/-- A start of a text that fits into `n` bytes is no longer than the longest one. -/
theorem byteLength_le_takeBytes {n : Nat} {front : List Char} (h : byteLength front ≤ n)
    (back : List Char) : byteLength front ≤ byteLength (takeBytes n (front ++ back)) := by
  induction front generalizing n with
  | nil => exact Nat.zero_le _
  | cons x front ih =>
    rw [byteLength_cons] at h
    have hlater := @ih (n - x.utf8Size) (by omega)
    rw [List.cons_append, takeBytes, if_pos (by omega), byteLength_cons, byteLength_cons]
    omega

/-- Going to an offset stops at the last boundary that is not behind it. -/
theorem isGreatest_seek (c : Cursor) (n : Nat) :
    IsGreatest {m | Utf8.IsBoundary (String.ofList c.source) m ∧ m ≤ n} (c.seek n).position := by
  refine ⟨⟨?_, position_seek_le c n⟩, ?_⟩
  · rw [← source_seek c n]
    exact isBoundary_position (c.seek n)
  · rintro m ⟨hboundary, hle⟩
    obtain ⟨front, back, hsplit, rfl⟩ := Utf8.isBoundary_ofList_iff.mp hboundary
    rw [position, seek, hsplit]
    exact byteLength_le_takeBytes hle back

theorem seek_inBytes (c : Cursor) (n : Nat) : c.inBytes.seek n = (c.seek n).inBytes := by
  -- no boundary lies behind the end, so stopping there first leaves the same ones
  have hsame : {m | Utf8.IsBoundary (String.ofList c.source) m
        ∧ m ≤ min n (String.ofList c.source).utf8ByteSize}
      = {m | Utf8.IsBoundary (String.ofList c.source) m ∧ m ≤ n} := by
    ext m
    refine and_congr_right fun hboundary => ?_
    exact Nat.le_min.trans (and_iff_left hboundary.le_utf8ByteSize)
  have hfloor := Utf8.isGreatest_floor (String.ofList c.source)
    (min n (String.ofList c.source).utf8ByteSize)
  rw [hsame] at hfloor
  have hoffset := hfloor.unique (isGreatest_seek c n)
  rw [ByteCursor.seek, inBytes, inBytes, source_seek]
  exact congrArg (ByteCursor.mk (String.ofList c.source)) hoffset

end Cursor

end CommandGrammar
