import CommandGrammar.Cursor.Quoted

/-!
# What quoted reading accepts

A successful scan has passed over exactly the written form of the text that it returns.  Together
with `Quoted.scan_encode` this makes writing the only way to get a text read: one form for each
text, and nothing of what follows is looked at.

A scan that fails has passed over written characters as well.  Behind them, where no written
character begins, stands a bad escape, or the text ends (`exists_stop`); so what stands there says
which of the three ways a scan goes, and `Cursor.readUntil_decodes` says where it leaves the cursor.
-/

set_option autoImplicit false

namespace CommandGrammar

namespace Quoted

/-- What a successful scan passes over is the written form of its result. -/
theorem passed_of_result_eq_ok {delimiter : Char} {text w : List Char}
    (h : (scan delimiter text).result = .ok w) :
    (scan delimiter text).passed = encode delimiter w := by
  fun_induction scan delimiter text generalizing w with
  | case1 => cases h
  | case2 => cases h
  | case3 e rest he s =>
    rename_i ih
    -- an escaped character: the result begins with it, and its written form is the escape
    cases hs : s.result with
    | error fault => simp [hs, Except.map] at h
    | ok v =>
      simp only [hs, Except.map, Except.ok.injEq] at h
      subst h
      simpa [encode, he] using ih hs
  | case4 => cases h
  | case5 => cases h; rfl
  | case6 c text hc hd s =>
    rename_i ih
    cases hs : s.result with
    | error fault => simp [hs, Except.map] at h
    | ok v =>
      simp only [hs, Except.map, Except.ok.injEq] at h
      subst h
      simpa [encode, hc, hd] using ih hs

/-- A scan succeeds exactly on a written form, whatever follows it. -/
theorem scan_eq_ok_iff {delimiter : Char} (hd : delimiter ≠ '\\') {text w passed left : List Char} :
    scan delimiter text = ⟨.ok w, passed, left⟩
      ↔ passed = encode delimiter w ∧ text = encode delimiter w ++ left := by
  constructor
  · intro h
    have hpassed := passed_of_result_eq_ok (congrArg Scan.result h)
    have hsplit := passed_append_left delimiter text
    rw [hpassed, h] at hsplit
    rw [h] at hpassed
    exact ⟨hpassed, hsplit.symm⟩
  · rintro ⟨rfl, rfl⟩
    exact scan_encode delimiter hd w left

/-- The written form ends with the delimiter. -/
theorem exists_encode_eq_concat (delimiter : Char) (text : List Char) :
    ∃ front, encode delimiter text = front ++ [delimiter] := by
  induction text with
  | nil => exact ⟨[], rfl⟩
  | cons c text ih =>
    obtain ⟨front, hfront⟩ := ih
    rw [encode, hfront]
    split
    · exact ⟨'\\' :: c :: front, rfl⟩
    · exact ⟨c :: front, rfl⟩

/-! ## Written characters -/

/-- How a character is written between delimiters. -/
def escape (delimiter c : Char) : List Char :=
  if c = delimiter ∨ c = '\\' then ['\\', c] else [c]

/-- The written form of a text is that of its characters, with the delimiter behind them. -/
theorem encode_eq_flatMap (delimiter : Char) (text : List Char) :
    encode delimiter text = text.flatMap (escape delimiter) ++ [delimiter] := by
  induction text with
  | nil => rfl
  | cons c text ih =>
    rw [encode, List.flatMap_cons, List.append_assoc, ← ih, escape]
    split <;> rfl

/-- A scan passes over written characters and goes on behind them as if it began there. -/
theorem scan_written_append (delimiter : Char) (w more : List Char) :
    scan delimiter (w.flatMap (escape delimiter) ++ more)
      = ⟨(scan delimiter more).result.map (w ++ ·),
          w.flatMap (escape delimiter) ++ (scan delimiter more).passed,
          (scan delimiter more).left⟩ := by
  induction w with
  | nil => cases hs : (scan delimiter more).result <;> simp [Except.map, ← hs]
  | cons c w ih =>
    by_cases h : c = delimiter ∨ c = '\\'
    · cases hs : (scan delimiter more).result <;> simp [escape, h, scan, ih, hs, Except.map]
    · have hc := not_or.mp h
      cases hs : (scan delimiter more).result <;>
        simp [escape, scan_cons_of_ne hc.2, ih, hs, hc.1, hc.2, Except.map]

/-! ## Where a scan stops -/

/-- What may stand where no written character begins, and how a scan goes there. -/
inductive Stop (delimiter : Char) : List Char → Scan → Prop where
  | closed (left : List Char) : Stop delimiter (delimiter :: left) ⟨.ok [], [delimiter], left⟩
  | badEscape {e : Char} (left : List Char) : e ≠ delimiter → e ≠ '\\' →
    Stop delimiter ('\\' :: e :: left) ⟨.error .badEscape, ['\\'], e :: left⟩
  | ended : Stop delimiter [] ⟨.error .unclosedQuote, [], []⟩
  | cutOff : Stop delimiter ['\\'] ⟨.error .unclosedQuote, ['\\'], []⟩

variable {delimiter : Char} {text : List Char}

theorem Stop.scan_eq (hd : delimiter ≠ '\\') {s : Scan} (h : Stop delimiter text s) :
    scan delimiter text = s := by
  cases h with
  | closed left => simp [scan_cons_of_ne hd]
  | badEscape left hdelimiter hbackslash => simp [scan, hdelimiter, hbackslash]
  | ended => rfl
  | cutOff => rfl

/-- Every text begins with written characters behind which a scan stops. -/
theorem exists_stop (delimiter : Char) (text : List Char) :
    ∃ (w more : List Char) (s : Scan),
      text = w.flatMap (escape delimiter) ++ more ∧ Stop delimiter more s := by
  fun_induction scan delimiter text with
  | case1 => exact ⟨[], _, _, rfl, .ended⟩
  | case2 => exact ⟨[], _, _, rfl, .cutOff⟩
  | case3 e rest he _ ih =>
    obtain ⟨w, more, s, rfl, hstop⟩ := ih
    exact ⟨e :: w, more, s, by simp [escape, he], hstop⟩
  | case4 e rest he =>
    have hother := not_or.mp he
    exact ⟨[], _, _, rfl, .badEscape rest hother.1 hother.2⟩
  | case5 text => exact ⟨[], _, _, rfl, .closed text⟩
  | case6 c text hc hd _ ih =>
    obtain ⟨w, more, s, rfl, hstop⟩ := ih
    exact ⟨c :: w, more, s, by simp [escape, hc, hd], hstop⟩

/-- What stands behind the written characters that a text begins with decides how a scan goes. -/
theorem scan_of_stop (hd : delimiter ≠ '\\') {w more : List Char} {s : Scan}
    (htext : text = w.flatMap (escape delimiter) ++ more) (hstop : Stop delimiter more s) :
    scan delimiter text
      = ⟨s.result.map (w ++ ·), w.flatMap (escape delimiter) ++ s.passed, s.left⟩ := by
  rw [htext, scan_written_append, hstop.scan_eq hd]

/-- A scan ends at a bad escape exactly if written characters lead to one, and it leaves the
character behind the backslash. -/
theorem scan_eq_badEscape_iff (hd : delimiter ≠ '\\') {passed left : List Char} :
    scan delimiter text = ⟨.error .badEscape, passed, left⟩
      ↔ ∃ (w : List Char) (e : Char) (later : List Char), e ≠ delimiter ∧ e ≠ '\\'
        ∧ text = w.flatMap (escape delimiter) ++ '\\' :: e :: later
        ∧ passed = w.flatMap (escape delimiter) ++ ['\\'] ∧ left = e :: later := by
  constructor
  · intro h
    obtain ⟨w, more, s, htext, hstop⟩ := exists_stop delimiter text
    rw [scan_of_stop hd htext hstop] at h
    cases hstop with
    | closed later => cases h
    | badEscape later hdelimiter hbackslash =>
      cases h
      exact ⟨w, _, later, hdelimiter, hbackslash, htext, rfl, rfl⟩
    | ended => cases h
    | cutOff => cases h
  · rintro ⟨w, e, later, hdelimiter, hbackslash, htext, rfl, rfl⟩
    exact scan_of_stop hd htext (.badEscape later hdelimiter hbackslash)

/-- A scan misses the delimiter exactly if written characters lead neither to it nor to a bad
escape, and it leaves nothing. -/
theorem scan_eq_unclosed_iff (hd : delimiter ≠ '\\') {passed left : List Char} :
    scan delimiter text = ⟨.error .unclosedQuote, passed, left⟩
      ↔ (∀ w later : List Char, text ≠ w.flatMap (escape delimiter) ++ delimiter :: later)
        ∧ (∀ (w : List Char) (e : Char) (later : List Char), e ≠ delimiter → e ≠ '\\' →
            text ≠ w.flatMap (escape delimiter) ++ '\\' :: e :: later)
        ∧ passed = text ∧ left = [] := by
  constructor
  · intro h
    refine ⟨?_, ?_, ?_⟩
    · intro w later htext
      rw [scan_of_stop hd htext (.closed later)] at h
      cases h
    · intro w e later hdelimiter hbackslash htext
      rw [scan_of_stop hd htext (.badEscape later hdelimiter hbackslash)] at h
      cases h
    · obtain ⟨w, more, s, htext, hstop⟩ := exists_stop delimiter text
      rw [scan_of_stop hd htext hstop] at h
      cases hstop <;> cases h
      · exact ⟨htext.symm, rfl⟩
      · exact ⟨htext.symm, rfl⟩
  · rintro ⟨hopen, hgood, rfl, rfl⟩
    obtain ⟨w, more, s, htext, hstop⟩ := exists_stop delimiter passed
    have hscan := scan_of_stop hd htext hstop
    cases hstop with
    | closed later => exact absurd htext (hopen w later)
    | badEscape later hdelimiter hbackslash =>
      exact absurd htext (hgood w _ later hdelimiter hbackslash)
    | ended => rwa [← htext] at hscan
    | cutOff => rwa [← htext] at hscan

end Quoted

/-! ## Quoted reading at a cursor -/

namespace Cursor

open Quoted

theorem readUntil_eq_iff {delimiter : Char} {c after : Cursor}
    {result : Except InputFault (List Char)} :
    c.readUntil delimiter = (result, after)
      ↔ ∃ passed left, scan delimiter c.rest = ⟨result, passed, left⟩
        ∧ after = ⟨c.consumed ++ passed, left⟩ := by
  unfold readUntil
  obtain ⟨found, passed, left⟩ := scan delimiter c.rest
  simp only [Prod.mk.injEq, Scan.mk.injEq]
  constructor
  · rintro ⟨rfl, rfl⟩
    exact ⟨passed, left, ⟨rfl, rfl, rfl⟩, rfl⟩
  · rintro ⟨_, _, ⟨rfl, rfl, rfl⟩, rfl⟩
    exact ⟨rfl, rfl⟩

section Reading

variable {delimiter : Char} (hd : delimiter ≠ '\\') {c after : Cursor} {w : List Char}

include hd

/-- What is read stands at the cursor in its written form, with the delimiter behind it. -/
theorem readUntil_eq_ok_iff :
    c.readUntil delimiter = (.ok w, after)
      ↔ ∃ left, c.rest = w.flatMap (escape delimiter) ++ delimiter :: left
        ∧ after = ⟨c.consumed ++ (w.flatMap (escape delimiter) ++ [delimiter]), left⟩ := by
  rw [readUntil_eq_iff]
  constructor
  · rintro ⟨passed, left, hscan, rfl⟩
    obtain ⟨rfl, hrest⟩ := (scan_eq_ok_iff hd).mp hscan
    rw [encode_eq_flatMap, List.append_assoc] at hrest
    exact ⟨left, hrest, by rw [encode_eq_flatMap]⟩
  · rintro ⟨left, hrest, rfl⟩
    refine ⟨_, left, (scan_eq_ok_iff hd).mpr ⟨rfl, ?_⟩, by rw [encode_eq_flatMap]⟩
    rw [hrest, encode_eq_flatMap, List.append_assoc]
    rfl

theorem readUntil_eq_badEscape_iff :
    c.readUntil delimiter = (.error .badEscape, after)
      ↔ ∃ (w : List Char) (e : Char) (left : List Char), e ≠ delimiter ∧ e ≠ '\\'
        ∧ c.rest = w.flatMap (escape delimiter) ++ '\\' :: e :: left
        ∧ after = ⟨c.consumed ++ (w.flatMap (escape delimiter) ++ ['\\']), e :: left⟩ := by
  rw [readUntil_eq_iff]
  constructor
  · rintro ⟨passed, left, hscan, rfl⟩
    obtain ⟨w, e, later, hdelimiter, hbackslash, hrest, rfl, rfl⟩ :=
      (scan_eq_badEscape_iff hd).mp hscan
    exact ⟨w, e, later, hdelimiter, hbackslash, hrest, rfl⟩
  · rintro ⟨w, e, later, hdelimiter, hbackslash, hrest, rfl⟩
    exact ⟨_, _, (scan_eq_badEscape_iff hd).mpr
      ⟨w, e, later, hdelimiter, hbackslash, hrest, rfl, rfl⟩, rfl⟩

theorem readUntil_eq_unclosed_iff :
    c.readUntil delimiter = (.error .unclosedQuote, after)
      ↔ (∀ w left : List Char, c.rest ≠ w.flatMap (escape delimiter) ++ delimiter :: left)
        ∧ (∀ (w : List Char) (e : Char) (left : List Char), e ≠ delimiter → e ≠ '\\' →
            c.rest ≠ w.flatMap (escape delimiter) ++ '\\' :: e :: left)
        ∧ after = ⟨c.consumed ++ c.rest, []⟩ := by
  rw [readUntil_eq_iff]
  constructor
  · rintro ⟨passed, left, hscan, rfl⟩
    obtain ⟨hopen, hgood, rfl, rfl⟩ := (scan_eq_unclosed_iff hd).mp hscan
    exact ⟨hopen, hgood, rfl⟩
  · rintro ⟨hopen, hgood, rfl⟩
    exact ⟨_, _, (scan_eq_unclosed_iff hd).mpr ⟨hopen, hgood, rfl, rfl⟩, rfl⟩

end Reading

theorem readText_written (consumed w following : List Char) :
    (Cursor.mk consumed ('"' :: (w.flatMap (escape '"') ++ '"' :: following))).readText
      = (.ok w, ⟨consumed ++ '"' :: (w.flatMap (escape '"') ++ ['"']), following⟩) := by
  have hscan := scan_encode '"' (by decide) w following
  rw [encode_eq_flatMap, List.append_assoc, List.singleton_append] at hscan
  simp [readText, peek?, skipOne, next, readUntil, hscan]

/-- Reading up to a delimiter takes the written form of its result and the delimiter, and nothing
else.  It fails at a backslash that escapes neither the delimiter nor a backslash, with the cursor
at the character behind it, and otherwise at the end of the text.  So what is written between quotes
is read back, whatever follows. -/
theorem readUntil_decodes {delimiter : Char} (hd : delimiter ≠ '\\') (c : Cursor) :
    (∀ (w : List Char) (after : Cursor), c.readUntil delimiter = (.ok w, after)
        ↔ ∃ left, c.rest = w.flatMap (escape delimiter) ++ delimiter :: left
          ∧ after = ⟨c.consumed ++ (w.flatMap (escape delimiter) ++ [delimiter]), left⟩)
      ∧ (∀ after : Cursor, c.readUntil delimiter = (.error .badEscape, after)
        ↔ ∃ (w : List Char) (e : Char) (left : List Char), e ≠ delimiter ∧ e ≠ '\\'
          ∧ c.rest = w.flatMap (escape delimiter) ++ '\\' :: e :: left
          ∧ after = ⟨c.consumed ++ (w.flatMap (escape delimiter) ++ ['\\']), e :: left⟩)
      ∧ (∀ after : Cursor, c.readUntil delimiter = (.error .unclosedQuote, after)
        ↔ (∀ w left : List Char, c.rest ≠ w.flatMap (escape delimiter) ++ delimiter :: left)
          ∧ (∀ (w : List Char) (e : Char) (left : List Char), e ≠ delimiter → e ≠ '\\' →
              c.rest ≠ w.flatMap (escape delimiter) ++ '\\' :: e :: left)
          ∧ after = ⟨c.consumed ++ c.rest, []⟩)
      ∧ ∀ consumed w following : List Char,
        (Cursor.mk consumed ('"' :: (w.flatMap (escape '"') ++ '"' :: following))).readText
          = (.ok w, ⟨consumed ++ '"' :: (w.flatMap (escape '"') ++ ['"']), following⟩) := by
  refine ⟨fun w after => ?_, fun after => ?_, fun after => ?_, readText_written⟩
  · exact readUntil_eq_ok_iff hd
  · exact readUntil_eq_badEscape_iff hd
  · exact readUntil_eq_unclosed_iff hd

/-- Between bars, a bad escape behind an escaped bar, two characters of more than one byte, and a
backslash at the end of the text. -/
theorem decodes_bars :
    '|' ≠ '\\'
      ∧ (Cursor.ofText "é\\|ü| rest".toList).readUntil '|'
        = (.ok "é|ü".toList, ⟨"é\\|ü|".toList, " rest".toList⟩)
      ∧ (Cursor.ofText "é\\|ü\\n|".toList).readUntil '|'
        = (.error .badEscape, ⟨"é\\|ü\\".toList, "n|".toList⟩)
      ∧ (Cursor.ofText "é\\|ü\\".toList).readUntil '|'
        = (.error .unclosedQuote, ⟨"é\\|ü\\".toList, []⟩) := by
  have hd : '|' ≠ '\\' := by decide
  refine ⟨hd, ?_, ?_, ?_⟩
  · exact ((readUntil_decodes hd _).1 _ _).mpr ⟨" rest".toList, rfl, rfl⟩
  · exact ((readUntil_decodes hd _).2.1 _).mpr
      ⟨"é|ü".toList, 'n', ['|'], by decide, by decide, rfl, rfl⟩
  · rfl

end Cursor

end CommandGrammar
