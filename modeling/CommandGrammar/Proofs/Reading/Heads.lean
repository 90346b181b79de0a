import CommandGrammar.Proofs.Trial.Residue

/-!
# Reading a head

A head is a part of a line that ends with a blank, so that no word goes over its end.  Reading a
word of it comes out the same whatever word follows the head.  A text between quotes may go over the
end, unless the text that follows has no quote.
-/

set_option autoImplicit false

namespace CommandGrammar

open Text

/-! ## Quoted texts -/

namespace Quoted

variable {delimiter : Char} {text after w passed left : List Char}

theorem scan_append_of_ok (hd : delimiter ≠ '\\')
    (h : scan delimiter text = ⟨.ok w, passed, left⟩) :
    scan delimiter (text ++ after) = ⟨.ok w, passed, left ++ after⟩ := by
  obtain ⟨hpassed, hsplit⟩ := (scan_eq_ok_iff hd).mp h
  refine (scan_eq_ok_iff hd).mpr ⟨hpassed, ?_⟩
  rw [hsplit, List.append_assoc]

/-- A text between quotes is not closed by what has no delimiter. -/
theorem ok_of_scan_append (hd : delimiter ≠ '\\') (hafter : delimiter ∉ after)
    (h : (scan delimiter (text ++ after)).result = .ok w) :
    (scan delimiter text).result = .ok w := by
  have hpassed := passed_of_result_eq_ok h
  have hsplit := passed_append_left delimiter (text ++ after)
  obtain ⟨front, hfront⟩ := exists_encode_eq_concat delimiter w
  rw [hpassed] at hsplit
  suffices hprefix : ∃ left, text = encode delimiter w ++ left by
    obtain ⟨left, hleft⟩ := hprefix
    rw [(scan_eq_ok_iff hd).mpr ⟨rfl, hleft⟩]
  rcases List.append_eq_append_iff.mp hsplit with ⟨more, htext, _⟩ | ⟨more, hencode, hmore⟩
  · exact ⟨more, htext⟩
  · -- what is beyond the text would hold the closing delimiter
    rcases List.eq_nil_or_concat more with rfl | ⟨before, c, rfl⟩
    · exact ⟨[], by rw [hencode, List.append_nil, List.append_nil]⟩
    · rw [List.concat_eq_append] at hencode hmore
      rw [hfront, ← List.append_assoc] at hencode
      obtain ⟨_, hc⟩ := List.append_inj' hencode rfl
      cases hc
      refine absurd ?_ hafter
      rw [hmore]
      simp

end Quoted

/-! ## Heads -/

namespace Text

/-- A part of a line that no word goes over: it is empty or ends with a blank. -/
def Closed (text : List Char) : Prop := text = [] ∨ endsBlank text = true

theorem Closed.of_append {front back : List Char} (h : Closed (front ++ back)) : Closed back := by
  by_cases hne : back = []
  · exact .inl hne
  · rcases h with hnil | hblank
    · exact .inl (List.append_eq_nil_iff.mp hnil).2
    · rw [endsBlank_append hne] at hblank
      exact .inr hblank

/-- In a head, something follows each word. -/
theorem Closed.afterWord_ne_nil {text : List Char} (h : Closed text) (hink : StartsInk text) :
    afterWord text ≠ [] := by
  intro hnil
  have hblank := h.resolve_left hink.ne_nil
  have hall := allInk_firstWord text
  have hsplit := firstWord_append_afterWord text
  rw [hnil, List.append_nil] at hsplit
  rw [hsplit] at hall
  rcases List.eq_nil_or_concat text with rfl | ⟨front, c, rfl⟩
  · exact hink.ne_nil rfl
  · rw [List.concat_eq_append] at hblank hall
    have hc : isInk c = true := hall c (by simp)
    have hlast : isBlank c = true := by simpa [endsBlank, startsBlank] using hblank
    rw [isInk, hlast] at hc
    cases hc

/-- A word of a head ends in it, whatever follows. -/
theorem Closed.separated_append {text : List Char} (h : Closed text) (hink : StartsInk text)
    (after : List Char) : Separated (afterWord text ++ after) := by
  have hne := h.afterWord_ne_nil hink
  have hsep := separated_afterWord text
  cases hrest : afterWord text with
  | nil => exact absurd hrest hne
  | cons c rest =>
    rw [hrest] at hsep
    exact separated_cons_iff.mpr (separated_cons_iff.mp hsep)

end Text

namespace Cursor

variable {c after : Cursor} {text : List Char}

theorem extend_rest (c : Cursor) (text : List Char) : (c.extend text).rest = c.rest ++ text := rfl

/-- Blanks are passed over alike, whatever word follows. -/
theorem skipBlanks_extend (htext : StartsInk text) :
    (c.extend text).skipBlanks = c.skipBlanks.extend text := by
  have hink : StartsInk (trimLeft c.rest ++ text) := by
    by_cases hnil : trimLeft c.rest = []
    · rwa [hnil, List.nil_append]
    · exact (startsInk_trimLeft hnil).append text
  have hsplit :
      c.extend text = ⟨c.consumed, leadingBlanks c.rest ++ (trimLeft c.rest ++ text)⟩ := by
    rw [← List.append_assoc, leadingBlanks_append_trimLeft]
    rfl
  rw [hsplit, skipBlanks_append (allBlank_leadingBlanks c.rest) (trimLeft_of_startsInk hink)]
  rfl

/-- A word of a head is read alike, whatever follows. -/
theorem readWord_extend (hclosed : Closed c.rest) (hink : StartsInk c.rest) (text : List Char) :
    (c.extend text).readWord = (c.readWord.1, c.readWord.2.extend text) := by
  have hsplit : c.extend text = ⟨c.consumed, firstWord c.rest ++ (afterWord c.rest ++ text)⟩ := by
    rw [← List.append_assoc, firstWord_append_afterWord]
    rfl
  rw [hsplit, readWord_append (allInk_firstWord c.rest) (hclosed.separated_append hink text)]
  rfl

theorem peekWord_extend (hclosed : Closed c.rest) (hink : StartsInk c.rest) (text : List Char) :
    (c.extend text).peekWord = c.peekWord :=
  congrArg Prod.fst (readWord_extend hclosed hink text)

theorem peek?_extend (hink : StartsInk c.rest) (text : List Char) :
    (c.extend text).peek? = c.peek? := by
  obtain ⟨x, rest, hrest, _⟩ := hink
  simp [peek?, extend, hrest]

/-- A word begins where its cursor stands. -/
theorem head?_peekWord (hink : StartsInk c.rest) : c.peekWord.head? = c.peek? := by
  obtain ⟨x, rest, hrest, hx⟩ := hink
  simp [peekWord, peek?, hrest, firstWord, hx]

/-- Away from quotes a word is passed over. -/
theorem passQuoted_of_peek?_ne (h : c.peek? ≠ some '"') : FlagScan.passQuoted c = c.readWord.2 := by
  unfold FlagScan.passQuoted readText
  rw [if_neg h]

theorem passQuoted_quote (consumed rest : List Char) :
    FlagScan.passQuoted ⟨consumed, '"' :: rest⟩
      = match (Quoted.scan '"' rest).result with
        | .ok _ => ⟨consumed ++ ['"'] ++ (Quoted.scan '"' rest).passed,
            (Quoted.scan '"' rest).left⟩
        | .error _ => (Cursor.mk consumed ('"' :: rest)).readWord.2 := by
  have hread : (Cursor.mk consumed ('"' :: rest)).readText
      = ((Quoted.scan '"' rest).result, ⟨consumed ++ ['"'] ++ (Quoted.scan '"' rest).passed,
          (Quoted.scan '"' rest).left⟩) := by
    simp [readText, peek?, skipOne, next, readUntil]
  unfold FlagScan.passQuoted
  rw [hread]
  cases (Quoted.scan '"' rest).result <;> rfl

/-- A text between quotes is passed over alike, whatever follows the head without a quote. -/
theorem passQuoted_extend (hclosed : Closed c.rest) (hink : StartsInk c.rest)
    (hquotes : '"' ∉ c.rest ∨ '"' ∉ text) :
    FlagScan.passQuoted (c.extend text) = (FlagScan.passQuoted c).extend text := by
  have hword := congrArg Prod.snd (readWord_extend hclosed hink text)
  by_cases hquote : c.peek? = some '"'
  · obtain ⟨consumed, rest⟩ := c
    cases rest with
    | nil => cases hquote
    | cons x rest =>
      cases hquote
      have hafter : '"' ∉ text := hquotes.resolve_left fun h => h List.mem_cons_self
      have hextend : (Cursor.mk consumed ('"' :: rest)).extend text
          = ⟨consumed, '"' :: (rest ++ text)⟩ := rfl
      rw [hextend] at hword ⊢
      rw [passQuoted_quote, passQuoted_quote, hword]
      cases hscan : Quoted.scan '"' rest with
      | mk result passed left =>
        cases result with
        | ok w =>
          rw [Quoted.scan_append_of_ok (by decide) hscan]
          rfl
        | error fault =>
          have hfails : ∀ w, (Quoted.scan '"' (rest ++ text)).result ≠ .ok w := by
            intro w hok
            have hshort := Quoted.ok_of_scan_append (by decide) hafter hok
            rw [hscan] at hshort
            cases hshort
          cases hlong : (Quoted.scan '"' (rest ++ text)).result with
          | ok w => exact absurd hlong (hfails w)
          | error other => rfl
  · rw [passQuoted_of_peek?_ne hquote, passQuoted_of_peek?_ne (by rwa [peek?_extend hink]), hword]

end Cursor

/-! ## Types -/

namespace ValueType

variable {t : ValueType}

/-- What a type reads where a quote stands is what is passed over as a text between quotes. -/
def KeepsQuotes (t : ValueType) : Prop :=
  ∀ (c : Cursor) (context : Context) (v : Value), c.peek? = some '"' →
    (t.parse c context).result = .ok v →
    (t.parse c context).cursor = FlagScan.passQuoted c

/-- Types that read a word or a text between quotes do. -/
theorem TakesText.keepsQuotes {f : Except InputFault (List Char) → Except CommandError Value}
    (h : TakesText t f) (hfault : ∀ fault v, f (.error fault) ≠ .ok v) : t.KeepsQuotes := by
  intro c context v _ hok
  rw [h c context] at hok ⊢
  unfold FlagScan.passQuoted
  cases hread : c.readText with
  | mk result after =>
    rw [hread] at hok
    cases result with
    | error fault => exact absurd hok (hfault fault v)
    | ok w => rfl

/-- A standard type that does not take the rest takes what is passed over as a word or as a text
between quotes. -/
theorem Standard.cursor_parse (h : t.Standard) (hgreedy : t.isGreedy = false) {c : Cursor}
    (hquotes : c.peek? = some '"' → t.KeepsQuotes) {context : Context} {v : Value}
    (hok : (t.parse c context).result = .ok v) :
    (t.parse c context).cursor = FlagScan.passQuoted c := by
  by_cases hquote : c.peek? = some '"'
  · exact hquotes hquote c context v hquote hok
  · rw [Cursor.passQuoted_of_peek?_ne hquote]
    have htakes := h.takesOne hgreedy hok
    generalize (t.parse c context).cursor = after at htakes ⊢
    cases htakes with
    | word => rfl
    | quoted hrest _ =>
      refine absurd ?_ hquote
      rw [Cursor.peek?, hrest]
      rfl

end ValueType

end CommandGrammar
