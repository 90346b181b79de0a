import CommandGrammar.Proofs.Reading.Standard

/-!
# How far a value reaches

A standard type that is greedy leaves nothing of the input.  Any other one takes the word at the
cursor, or a text between quotes that stands there.  Bounds and validators change nothing of this:
they look at the value, not at the text.
-/

set_option autoImplicit false

namespace CommandGrammar

namespace Cursor

/-- What follows the word at a cursor, or the text between quotes that stands there. -/
inductive TakesOne (c : Cursor) : Cursor → Prop where
  | word : TakesOne c c.readWord.2
  | quoted {text content : List Char} (hquote : c.rest = '"' :: text)
      (hscan : (Quoted.scan '"' text).result = .ok content) :
      TakesOne c ⟨c.consumed ++ '"' :: (Quoted.scan '"' text).passed,
        (Quoted.scan '"' text).left⟩

theorem takesOne_of_readText {c after : Cursor} {content : List Char}
    (h : c.readText = (.ok content, after)) : c.TakesOne after := by
  obtain ⟨consumed, rest⟩ := c
  unfold readText at h
  split at h
  · next hquote =>
    cases rest with
    | nil => cases hquote
    | cons x text =>
      cases hquote
      simp only [skipOne, next, readUntil, Prod.mk.injEq] at h
      obtain ⟨hscan, rfl⟩ := h
      rw [List.append_assoc, List.singleton_append]
      exact .quoted rfl hscan
  · cases h
    exact .word

theorem TakesOne.exists_taken {c after : Cursor} (h : c.TakesOne after) :
    ∃ taken left, c.rest = taken ++ left ∧ after = ⟨c.consumed ++ taken, left⟩ := by
  cases h with
  | word => exact ⟨_, _, (Text.firstWord_append_afterWord c.rest).symm, rfl⟩
  | @quoted text content hquote hscan =>
    refine ⟨_, _, ?_, rfl⟩
    rw [hquote, List.cons_append, Quoted.passed_append_left]

end Cursor

namespace ValueType

variable {c : Cursor} {context : Context} {v : Value}

/-- Bounds let through what the inner type has read. -/
theorem parse_of_ranged {inner : ValueType} {min max : Option Numeric.Binary64}
    (h : ((ranged inner min max).parse c context).result = .ok v) :
    (∃ u, (inner.parse c context).result = .ok u)
      ∧ ((ranged inner min max).parse c context).cursor = (inner.parse c context).cursor := by
  simp only [parse] at h ⊢
  cases hread : inner.parse c context with
  | mk result after notes =>
    rw [hread] at h
    cases result with
    | error e => cases h
    | ok u => exact ⟨⟨u, rfl⟩, rfl⟩

/-- Validators let through what the inner type has read. -/
theorem parse_of_validated {inner : ValueType} {p : Parameter} {validators : List Validator}
    (h : ((validated inner p validators).parse c context).result = .ok v) :
    (∃ u, (inner.parse c context).result = .ok u)
      ∧ ((validated inner p validators).parse c context).cursor
        = (inner.parse c context).cursor := by
  simp only [parse] at h ⊢
  cases hread : inner.parse c context with
  | mk result after notes =>
    rw [hread] at h
    cases result with
    | error e => cases h
    | ok u => exact ⟨⟨u, rfl⟩, rfl⟩

/-- A list that is read has come to the end of the input. -/
theorem atEnd_of_list {inner : ValueType} (h : ((list inner).parse c context).result = .ok v) :
    ((list inner).parse c context).cursor.atEnd = true := by
  simp only [parse] at h ⊢
  cases hread : readEntries (fun c => inner.parse c context) (c.rest.length + 1) c with
  | mk result rest =>
    cases result with
    | error e => simp [hread, Except.map] at h
    | ok items => exact atEnd_of_readEntries hread

/-- A form of reading that is not greedy takes a word or a quoted text. -/
theorem LocalForm.takesOne {t : ValueType} (h : LocalForm t) (hgreedy : t.isGreedy = false)
    (hok : (t.parse c context).result = .ok v) : c.TakesOne (t.parse c context).cursor := by
  induction h generalizing v with
  | word h _ =>
    rw [h c context]
    exact .word
  | quoted h hfault _ =>
    rw [h c context] at hok ⊢
    cases hread : c.readText with
    | mk read after =>
      rw [hread] at hok
      cases read with
      | error fault => exact absurd hok (hfault fault v)
      | ok content => exact Cursor.takesOne_of_readText hread
  | text => cases hgreedy
  | list _ _ => cases hgreedy
  | ranged _ min max ih =>
    obtain ⟨⟨u, hu⟩, hcursor⟩ := parse_of_ranged hok
    rw [hcursor]
    exact ih hgreedy hu

namespace Standard

variable {t : ValueType}

/-- A greedy type leaves nothing. -/
theorem atEnd_of_isGreedy (h : t.Standard) (hgreedy : t.isGreedy = true)
    (hok : (t.parse c context).result = .ok v) : (t.parse c context).cursor.atEnd = true := by
  induction h generalizing v with
  | builtIn h => exact h.localForm.atEnd_of_isGreedy hgreedy hok
  | list _ _ => exact atEnd_of_list hok
  | ranged _ min max ih =>
    obtain ⟨⟨u, hu⟩, hcursor⟩ := parse_of_ranged hok
    rw [hcursor]
    exact ih hgreedy hu
  | validated _ p _ ih =>
    obtain ⟨⟨u, hu⟩, hcursor⟩ := parse_of_validated hok
    rw [hcursor]
    exact ih hgreedy hu

/-- A type that is not greedy takes a word or a quoted text. -/
theorem takesOne (h : t.Standard) (hgreedy : t.isGreedy = false)
    (hok : (t.parse c context).result = .ok v) : c.TakesOne (t.parse c context).cursor := by
  induction h generalizing v with
  | builtIn h => exact h.localForm.takesOne hgreedy hok
  | list _ _ => cases hgreedy
  | ranged _ min max ih =>
    obtain ⟨⟨u, hu⟩, hcursor⟩ := parse_of_ranged hok
    rw [hcursor]
    exact ih hgreedy hu
  | validated _ p _ ih =>
    obtain ⟨⟨u, hu⟩, hcursor⟩ := parse_of_validated hok
    rw [hcursor]
    exact ih hgreedy hu

end Standard

end ValueType

end CommandGrammar
