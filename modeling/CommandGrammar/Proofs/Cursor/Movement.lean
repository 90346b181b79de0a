import CommandGrammar.Cursor.Typed
import CommandGrammar.Proofs.Text.Seams

/-!
# Moving on in a text

A cursor that has moved on stands in the same text, further on or where it stood.  Positions are
counted in bytes, but of two positions in one text the smaller one is in front of characters that
the other one is behind: `onward_iff`.

Every read moves on, whether it succeeds or fails.  Nothing is undone by a failure: a word of the
wrong form has been passed over, and a text between quotes has been passed over up to the fault.
-/

set_option autoImplicit false

namespace CommandGrammar.Cursor

/-- From the first cursor, the second one is reached by passing over a part of the text, perhaps an
empty one. -/
structure Onward (c after : Cursor) : Prop where
  source : after.source = c.source
  position : c.position ≤ after.position

/-- What lies between two places is what has been read on the way. -/
theorem onward_iff {c after : Cursor} :
    c.Onward after
      ↔ ∃ taken, c.rest = taken ++ after.rest ∧ after.consumed = c.consumed ++ taken := by
  constructor
  · rintro ⟨hsource, hposition⟩
    rcases List.append_eq_append_iff.mp hsource with ⟨excess, hconsumed, hrest⟩ | ⟨taken, h⟩
    · -- the place is not behind where the read began, so no character lies between the two
      have hempty : excess = [] := by
        by_contra hne
        have hpos := byteLength_pos_iff.mpr hne
        have hlength := congrArg byteLength hconsumed
        rw [byteLength_append] at hlength
        unfold position at hposition
        omega
      subst hempty
      exact ⟨[], hrest.symm, by simpa using hconsumed.symm⟩
    · exact ⟨taken, h.2, h.1⟩
  · rintro ⟨taken, hrest, hconsumed⟩
    refine ⟨?_, ?_⟩
    · rw [source, source, hconsumed, hrest, List.append_assoc]
    · rw [position, position, hconsumed, byteLength_append]
      exact Nat.le_add_right _ _

theorem Onward.refl (c : Cursor) : c.Onward c := ⟨rfl, Nat.le_refl _⟩

theorem Onward.trans {c middle after : Cursor} (h : c.Onward middle) (hafter : middle.Onward after) :
    c.Onward after :=
  ⟨hafter.source.trans h.source, Nat.le_trans h.position hafter.position⟩

theorem onward_append (front taken left : List Char) :
    Onward ⟨front, taken ++ left⟩ ⟨front ++ taken, left⟩ :=
  onward_iff.mpr ⟨taken, rfl, rfl⟩

/-! ## Plain reads -/

theorem onward_next (c : Cursor) : c.Onward c.next.2 := by
  obtain ⟨consumed, rest⟩ := c
  cases rest with
  | nil => exact .refl _
  | cons x rest => exact onward_append consumed [x] rest

theorem onward_readWhile (p : Char → Bool) (c : Cursor) : c.Onward (c.readWhile p).2 := by
  have hmove := onward_append c.consumed (c.rest.takeWhile p) (c.rest.dropWhile p)
  rwa [List.takeWhile_append_dropWhile] at hmove

theorem onward_skipBlanks (c : Cursor) : c.Onward c.skipBlanks := onward_readWhile Text.isBlank c

theorem onward_skipBlank (c : Cursor) : c.Onward c.skipBlank := by
  unfold skipBlank
  split
  · exact onward_next c
  · exact .refl c

theorem onward_readWord (c : Cursor) : c.Onward c.readWord.2 := onward_readWhile Text.isInk c

theorem onward_readRest (c : Cursor) : c.Onward c.readRest.2 := by
  have hmove := onward_append c.consumed c.rest []
  rwa [List.append_nil] at hmove

/-! ## Texts between quotes -/

theorem onward_readUntil (delimiter : Char) (c : Cursor) : c.Onward (c.readUntil delimiter).2 := by
  have hmove := onward_append c.consumed (Quoted.scan delimiter c.rest).passed
    (Quoted.scan delimiter c.rest).left
  rwa [Quoted.passed_append_left] at hmove

theorem onward_readText (c : Cursor) : c.Onward c.readText.2 := by
  unfold readText
  split
  · exact (onward_next c).trans (onward_readUntil '"' c.skipOne)
  · exact onward_readWord c

/-! ## Typed reads -/

/-- The integer that a word is read as. -/
def integerOf (word : List Char) : Except CommandError Int64 :=
  match Numeric.int64OfNumeral? word with
  | some n => .ok n
  | none => .error (.rejected word "expected an integer")

/-- The number that a word is read as. -/
def floatOf (word : List Char) : Except CommandError Numeric.Binary64 :=
  match Numeric.binary64OfNumeral? word with
  | some x => if x.isFinite then .ok x else .error (.rejected word "expected a decimal number")
  | none => .error (.rejected word "expected a decimal number")

/-- The truth value that a word or a text between quotes is read as. -/
def truthOf : Except InputFault (List Char) → Except CommandError Bool
  | .error fault => .error (.malformed fault)
  | .ok word =>
    match boolOfWord? word with
    | some b => .ok b
    | none => .error (.rejected word "expected true or false")

theorem readInt_eq (c : Cursor) : c.readInt = (integerOf c.readWord.1, c.readWord.2) := by
  unfold readInt integerOf
  dsimp only
  cases Numeric.int64OfNumeral? c.readWord.1 <;> rfl

theorem readFloat_eq (c : Cursor) : c.readFloat = (floatOf c.readWord.1, c.readWord.2) := by
  unfold readFloat floatOf
  dsimp only
  cases Numeric.binary64OfNumeral? c.readWord.1 <;> rfl

theorem readBool_eq (c : Cursor) : c.readBool = (truthOf c.readText.1, c.readText.2) := by
  unfold readBool truthOf
  cases c.readText with
  | mk result after =>
    cases result with
    | error fault => rfl
    | ok word =>
      dsimp only
      cases boolOfWord? word <;> rfl

theorem onward_readInt (c : Cursor) : c.Onward c.readInt.2 := by
  rw [readInt_eq]
  exact onward_readWord c

theorem onward_readFloat (c : Cursor) : c.Onward c.readFloat.2 := by
  rw [readFloat_eq]
  exact onward_readWord c

theorem onward_readBool (c : Cursor) : c.Onward c.readBool.2 := by
  rw [readBool_eq]
  exact onward_readText c

end CommandGrammar.Cursor
