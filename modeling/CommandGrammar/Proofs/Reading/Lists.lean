import CommandGrammar.Proofs.Reading.Local
import CommandGrammar.Proofs.Text.Boundaries
import Mathlib.Data.List.Forall2

/-!
# Lists of words

A list is read entry by entry, and each entry moves the cursor.  Where the entries are of a built-in
type that is not greedy and no word of the text opens a quote, nothing of that shows: the text is
cut into its words, and each word is read on its own.  The list fails as the first of its words that the
type rejects, and otherwise takes the whole text.

A list of integers is displayed as words that are their numerals, so its display reads back.
-/

set_option autoImplicit false

namespace CommandGrammar

open Text (AllInk Separated words)

/-! ## Numerals of integers -/

namespace Numeric

theorem isDigit_of_mem_decimalDigits {n : Nat} {c : Char} (hc : c ∈ decimalDigits n) :
    isDigit c = true := by
  have hdigit := Char.isDigit_iff_toNat.mp
    (Nat.isDigit_of_mem_toDigits (by decide) (Nat.le_refl 10) hc)
  simpa [isDigit, Char.le_def, UInt32.le_iff_toNat_le] using hdigit

theorem natOfDigits_decimalDigits (n : Nat) : natOfDigits (decimalDigits n) = n :=
  Nat.ofDigitChars_ten_toDigits

/-- A digit is no sign. -/
theorem splitSign_of_isDigit {c : Char} (hc : isDigit c = true) (rest : List Char) :
    splitSign (c :: rest) = (false, c :: rest) := by
  unfold splitSign
  split
  next heq =>
    cases heq
    cases hc
  next heq =>
    cases heq
    cases hc
  next => rfl

theorem splitSign_decimalDigits (n : Nat) :
    splitSign (decimalDigits n) = (false, decimalDigits n) := by
  cases hdigits : decimalDigits n with
  | nil => exact absurd hdigits Nat.toDigits_ne_nil
  | cons c rest =>
    exact splitSign_of_isDigit
      (isDigit_of_mem_decimalDigits (hdigits ▸ List.mem_cons_self)) rest

/-- A numeral is read as the integer that it was written for. -/
theorem integerOfNumeral?_integerNumeral (n : Int) :
    integerOfNumeral? (integerNumeral n) = some n := by
  have hne : (decimalDigits n.natAbs).isEmpty = false :=
    List.isEmpty_eq_false_iff.mpr Nat.toDigits_ne_nil
  have hall : (decimalDigits n.natAbs).all isDigit = true :=
    List.all_eq_true.mpr fun c hc => isDigit_of_mem_decimalDigits hc
  unfold integerOfNumeral? integerNumeral
  by_cases hneg : n < 0
  · rw [if_pos hneg, splitSign]
    simp only [hne, hall, natOfDigits_decimalDigits]
    simp only [Bool.not_true, Bool.or_self, Bool.false_eq_true, if_false, if_true,
      Option.some.injEq]
    omega
  · rw [if_neg hneg, splitSign_decimalDigits]
    simp only [hne, hall, natOfDigits_decimalDigits]
    simp only [Bool.not_true, Bool.or_self, Bool.false_eq_true, if_false, Option.some.injEq]
    omega

/-- The numeral of a signed 64-bit integer is in range. -/
theorem int64OfNumeral?_integerNumeral (n : Int64) :
    int64OfNumeral? (integerNumeral n.toInt) = some n := by
  have hpow : Int.pow 2 63 = 2 ^ 63 := rfl
  have hfits : fitsInt64 n.toInt = true := by
    simpa [fitsInt64, hpow] using And.intro n.le_toInt n.toInt_lt
  rw [int64OfNumeral?, integerOfNumeral?_integerNumeral]
  simp [hfits]

theorem isInk_of_isDigit {c : Char} (hc : isDigit c = true) : Text.isInk c = true := by
  have hcode : 48 ≤ c.toNat ∧ c.toNat ≤ 57 := by
    simpa [isDigit, Char.le_def, UInt32.le_iff_toNat_le] using hc
  rw [Text.isInk_iff, Text.isBlank]
  simp [Text.inRanges, Text.blankRanges]
  omega

/-- A numeral is one word, which opens no quote. -/
theorem integerNumeral_word (n : Int) :
    integerNumeral n ≠ [] ∧ AllInk (integerNumeral n) ∧ (integerNumeral n).head? ≠ some '"' := by
  have hdigits : AllInk (decimalDigits n.natAbs) :=
    fun _ hc => isInk_of_isDigit (isDigit_of_mem_decimalDigits hc)
  unfold integerNumeral
  split
  next =>
    have hminus : AllInk ('-' :: decimalDigits n.natAbs) :=
      List.forall_mem_cons.mpr ⟨by decide, hdigits⟩
    exact ⟨List.cons_ne_nil _ _, hminus, by simp⟩
  next =>
    refine ⟨Nat.toDigits_ne_nil, hdigits, fun hquote => ?_⟩
    have hdigit := isDigit_of_mem_decimalDigits (List.mem_of_mem_head? hquote)
    exact absurd hdigit (by decide)

end Numeric

/-! ## What a run over a list gives -/

section Runs

variable {α β ε : Type} {f : α → Except ε β}

/-- A run over a list succeeds exactly if every entry does, with the results in their order. -/
theorem mapM_eq_ok_iff {xs : List α} {ys : List β} :
    xs.mapM f = .ok ys ↔ List.Forall₂ (fun x y => f x = .ok y) xs ys := by
  induction xs generalizing ys with
  | nil =>
    rw [List.forall₂_nil_left_iff]
    constructor
    · intro h
      cases h
      rfl
    · rintro rfl
      rfl
  | cons x xs ih =>
    rw [List.mapM_cons, List.forall₂_cons_left_iff]
    cases hx : f x with
    | error e =>
      constructor
      · intro h
        cases h
      · rintro ⟨_, _, h, _⟩
        cases h
    | ok y =>
      cases hxs : xs.mapM f with
      | error e =>
        constructor
        · intro h
          cases h
        · rintro ⟨_, later, _, hlater, _⟩
          cases hxs.symm.trans (ih.mpr hlater)
      | ok later =>
        constructor
        · intro h
          cases h
          exact ⟨y, later, rfl, ih.mp hxs, rfl⟩
        · rintro ⟨_, others, h, hothers, rfl⟩
          cases h
          cases hxs.symm.trans (ih.mpr hothers)
          rfl

/-- It fails exactly as the leftmost entry that fails. -/
theorem mapM_eq_error_iff {xs : List α} {e : ε} :
    xs.mapM f = .error e
      ↔ ∃ before x after, xs = before ++ x :: after ∧ (∀ other ∈ before, ∃ y, f other = .ok y)
          ∧ f x = .error e := by
  induction xs with
  | nil =>
    constructor
    · intro h
      cases h
    · rintro ⟨before, x, after, h, _⟩
      exact absurd h.symm (by simp)
  | cons x xs ih =>
    rw [List.mapM_cons]
    constructor
    · intro h
      cases hx : f x with
      | error first =>
        rw [hx] at h
        cases h
        exact ⟨[], x, xs, rfl, nofun, hx⟩
      | ok y =>
        rw [hx] at h
        cases hxs : xs.mapM f with
        | ok later =>
          rw [hxs] at h
          cases h
        | error later =>
          rw [hxs] at h
          cases h
          obtain ⟨before, bad, after, rfl, hbefore, hbad⟩ := ih.mp hxs
          exact ⟨x :: before, bad, after, rfl, List.forall_mem_cons.mpr ⟨⟨y, hx⟩, hbefore⟩, hbad⟩
    · rintro ⟨before, bad, after, hsplit, hbefore, hbad⟩
      cases before with
      | nil =>
        cases hsplit
        rw [hbad]
        rfl
      | cons first before =>
        cases hsplit
        obtain ⟨⟨y, hfirst⟩, hbefore⟩ := List.forall_mem_cons.mp hbefore
        rw [hfirst, ih.mpr ⟨before, bad, after, rfl, hbefore, hbad⟩]
        rfl

/-- It succeeds exactly if no entry fails. -/
theorem exists_mapM_eq_ok_iff {xs : List α} :
    (∃ ys, xs.mapM f = .ok ys) ↔ ∀ x ∈ xs, ∃ y, f x = .ok y := by
  constructor
  · rintro ⟨ys, hys⟩
    have hall := mapM_eq_ok_iff.mp hys
    clear hys
    induction hall with
    | nil => exact nofun
    | cons hx _ ih => exact List.forall_mem_cons.mpr ⟨⟨_, hx⟩, ih⟩
  · intro hall
    cases hxs : xs.mapM f with
    | ok ys => exact ⟨ys, rfl⟩
    | error e =>
      obtain ⟨before, x, after, rfl, _, hx⟩ := mapM_eq_error_iff.mp hxs
      obtain ⟨y, hy⟩ := hall x (List.mem_append_right _ List.mem_cons_self)
      cases hx.symm.trans hy

end Runs

namespace ValueType

/-! ## A word on its own -/

/-- What a type makes of a text that stands on its own. -/
def readAlone (t : ValueType) (context : Context) (text : List Char) : Except CommandError Value :=
  (t.parse (.ofText text) context).result

/-- At the start of a text, a word that opens no quote is read as it is on its own. -/
theorem LocalForm.parse_firstWord {t : ValueType} (h : LocalForm t) (hg : t.isGreedy = false)
    {context : Context} {word after : List Char} (hword : AllInk word)
    (hquote : word.head? ≠ some '"') (hafter : Separated after) :
    t.parse (.ofText (word ++ after)) context = ⟨t.readAlone context word, ⟨word, after⟩, []⟩ := by
  induction h generalizing after with
  | @word t f h _ =>
    have halone := (Cursor.readWord_ofText_append Text.separated_nil).mpr ⟨rfl, hword⟩
    rw [List.append_nil] at halone
    rw [readAlone, h _ context, h _ context, halone,
      (Cursor.readWord_ofText_append hafter).mpr ⟨rfl, hword⟩]
  | @quoted t f h _ _ =>
    have hspells : Cursor.Spells word word := .inl ⟨hquote, rfl, hword⟩
    have halone := (Cursor.readText_ofText_append Text.separated_nil).mpr hspells
    rw [List.append_nil] at halone
    rw [readAlone, h _ context, h _ context, halone,
      (Cursor.readText_ofText_append hafter).mpr hspells]
  | text => cases hg
  | list _ _ => cases hg
  | @ranged inner _ min max ih =>
    have halone := ih hg Text.separated_nil
    have hread := ih hg hafter
    rw [List.append_nil] at halone
    rw [readAlone]
    generalize inner.readAlone context word = result at halone hread
    simp only [parse, halone, hread]
    cases result <;> rfl

/-- A type that is not greedy takes a word that opens no quote as it would on its own, whether it
accepts it or not. -/
theorem LocalForm.parse_word {t : ValueType} (h : LocalForm t) (hg : t.isGreedy = false)
    {context : Context} {word after : List Char} (hword : AllInk word)
    (hquote : word.head? ≠ some '"') (hafter : Separated after) (front : List Char) :
    t.parse ⟨front, word ++ after⟩ context
      = ⟨t.readAlone context word, ⟨front ++ word, after⟩, []⟩ := by
  rw [h.parse_eq_behind _ _ context]
  dsimp only
  rw [h.parse_firstWord hg hword hquote hafter]
  rfl

/-- A word that opens no quote is accepted exactly if reading it gives a value. -/
theorem LocalForm.readsWhole_word_iff {t : ValueType} (h : LocalForm t) (hg : t.isGreedy = false)
    {context : Context} {word : List Char} (hword : AllInk word) (hquote : word.head? ≠ some '"')
    {v : Value} : t.ReadsWhole context word v ↔ t.readAlone context word = .ok v := by
  have hparse : t.parse (.ofText (word ++ [])) context
      = ⟨t.readAlone context word, ⟨word, []⟩, []⟩ :=
    h.parse_firstWord hg hword hquote Text.separated_nil
  rw [List.append_nil] at hparse
  refine and_iff_left ?_
  rw [hparse]
  rfl

/-! ## Entry by entry, word by word -/

/-- Where a word that opens no quote is read as `f` says and taken whole, the entries are the words
of the text, up to the first that `f` rejects. -/
theorem readEntries_words {readOne : Cursor → Parsed} {f : List Char → Except CommandError Value}
    {c : Cursor} {fuel : Nat}
    (hone : ∀ {word after}, AllInk word → word.head? ≠ some '"' → Separated after →
      ∀ front, readOne ⟨front, word ++ after⟩ = ⟨f word, ⟨front ++ word, after⟩, []⟩)
    (hquotes : ∀ word ∈ words c.rest, word.head? ≠ some '"') (hfuel : c.rest.length < fuel) :
    (readEntries readOne fuel c).1 = (words c.rest).mapM f := by
  -- on the fuel: an entry takes a character, so what is left of the fuel exceeds what is unread
  induction fuel generalizing c with
  | zero => exact absurd hfuel (Nat.not_lt_zero _)
  | succ fuel ih =>
    obtain ⟨front, rest⟩ := c
    dsimp only at hquotes hfuel ⊢
    by_cases hblank : Text.AllBlank rest
    · have hskip : (Cursor.mk front (rest ++ [])).skipBlanks = ⟨front ++ rest, []⟩ :=
        Cursor.skipBlanks_append hblank rfl
      rw [List.append_nil] at hskip
      rw [readEntries, hskip, Text.words_of_allBlank hblank]
      rfl
    · obtain ⟨gap, word, after, rfl, hgap, hword, hne, hafter, hwords⟩ :=
        Text.exists_first_word hblank
      rw [hwords] at hquotes ⊢
      obtain ⟨hfirst, hlater⟩ := List.forall_mem_cons.mp hquotes
      have hskip : (Cursor.mk front (gap ++ (word ++ after))).skipBlanks
          = ⟨front ++ gap, word ++ after⟩ :=
        Cursor.skipBlanks_append hgap
          (Text.trimLeft_of_startsInk ((hword.startsInk hne).append after))
      have hsome : (Cursor.mk (front ++ gap) (word ++ after)).atEnd = false := by
        simp [Cursor.atEnd, hne]
      rw [readEntries, hskip]
      simp only [hsome, hone hword hfirst hafter, Bool.false_eq_true, if_false, List.mapM_cons]
      cases f word with
      | error e => rfl
      | ok value =>
        have hstop := Cursor.separated_rest_iff.mp (show Separated
          (Cursor.mk (front ++ gap ++ word) after).rest from hafter)
        have hshorter : after.length < fuel := by
          have := List.length_pos_iff.mpr hne
          simp only [List.length_append] at hfuel
          omega
        dsimp only
        rw [if_neg (ne_true_of_eq_false hstop), ih hlater hshorter]
        cases (words after).mapM f <;> rfl

/-! ## Lists -/

/-- Where a list of `t` is read at `c` by cutting the unread text into words and reading each on its
own. -/
structure ReadsWords (t : ValueType) (context : Context) (c : Cursor) : Prop where
  /-- the words are read from the left, up to the first that is rejected -/
  inOrder : ((list t).parse c context).result
    = ((words c.rest).mapM (t.readAlone context)).map .list
  /-- the list is read exactly if every word is accepted -/
  succeeds_iff : (∃ v, ((list t).parse c context).result = .ok v)
    ↔ ∀ word ∈ words c.rest, ∃ v, t.ReadsWhole context word v
  /-- it has the values of the words, and nothing is left behind it -/
  values : ∀ {v after notes}, (list t).parse c context = ⟨.ok v, after, notes⟩ →
    ∃ items, v = .list items ∧ List.Forall₂ (t.ReadsWhole context) (words c.rest) items
      ∧ after = ⟨c.consumed ++ c.rest, []⟩ ∧ notes = []
  /-- otherwise the error is that of the leftmost word that is rejected -/
  rejects_iff : ∀ {e}, ((list t).parse c context).result = .error e
    ↔ ∃ before word after, words c.rest = before ++ word :: after
        ∧ (∀ other ∈ before, ∃ v, t.ReadsWhole context other v)
        ∧ t.readAlone context word = .error e

variable {t : ValueType} {context : Context}

/-- The unread text is taken by a list that is read. -/
theorem LocalForm.cursor_list (h : LocalForm t) {c : Cursor} {v : Value}
    (hok : (t.list.parse c context).result = .ok v) :
    (t.list.parse c context).cursor = ⟨c.consumed ++ c.rest, []⟩ := by
  have hend := h.list.atEnd_of_isGreedy rfl hok
  have hsource := h.list.source_parse c context
  cases hcursor : (t.list.parse c context).cursor with
  | mk consumed rest =>
    rw [hcursor] at hend hsource
    have hrest : rest = [] := List.isEmpty_iff.mp hend
    subst hrest
    simpa [Cursor.source] using hsource

/-- The result of a list is that of a run over the words. -/
theorem LocalForm.result_list (h : LocalForm t) (hg : t.isGreedy = false) {c : Cursor}
    (hquotes : ∀ word ∈ words c.rest, word.head? ≠ some '"') :
    (t.list.parse c context).result
      = ((words c.rest).mapM (t.readAlone context)).map Value.list := by
  simp only [parse]
  rw [readEntries_words (fun hword hquote hafter => h.parse_word hg hword hquote hafter) hquotes
    (Nat.lt_succ_self _)]

/-- Where no word opens a quote, a list of a type that is not greedy is read word by word. -/
theorem LocalForm.readsWords (h : LocalForm t) (hg : t.isGreedy = false) {c : Cursor}
    (hquotes : ∀ word ∈ words c.rest, word.head? ≠ some '"') : t.ReadsWords context c := by
  have hresult : (t.list.parse c context).result
      = ((words c.rest).mapM (t.readAlone context)).map Value.list := h.result_list hg hquotes
  have hwhole : ∀ word ∈ words c.rest, ∀ v,
      t.ReadsWhole context word v ↔ t.readAlone context word = .ok v := fun word hword _ =>
    h.readsWhole_word_iff hg (Text.allInk_of_mem_words hword) (hquotes word hword)
  have haccepted : ∀ before ⊆ words c.rest,
      ((∀ word ∈ before, ∃ v, t.ReadsWhole context word v)
        ↔ ∀ word ∈ before, ∃ v, t.readAlone context word = .ok v) := fun before hbefore =>
    forall₂_congr fun word hword => exists_congr fun v => hwhole word (hbefore hword) v
  constructor
  case inOrder => exact hresult
  case succeeds_iff =>
    rw [hresult, haccepted _ (List.Subset.refl _), ← exists_mapM_eq_ok_iff]
    cases (words c.rest).mapM (t.readAlone context) <;> simp [Except.map]
  case values =>
    intro v after notes hparse
    have hcursor := h.cursor_list (congrArg Parsed.result hparse)
    have hnotes := h.list.notes_parse c context
    rw [hparse] at hresult hcursor hnotes
    cases hrun : (words c.rest).mapM (t.readAlone context) with
    | error e =>
      rw [hrun] at hresult
      cases hresult
    | ok items =>
      rw [hrun] at hresult
      cases hresult
      have hboth := (List.forall₂_and_left _ _).mpr ⟨fun _ hword => hword, mapM_eq_ok_iff.mp hrun⟩
      exact ⟨items, rfl, hboth.imp fun word v hv => (hwhole word hv.1 v).mpr hv.2, hcursor, hnotes⟩
  case rejects_iff =>
    intro e
    have hfails : (t.list.parse c context).result = .error e
        ↔ (words c.rest).mapM (t.readAlone context) = .error e := by
      rw [hresult]
      cases (words c.rest).mapM (t.readAlone context) <;> simp [Except.map]
    rw [hfails, mapM_eq_error_iff]
    refine exists_congr fun before => exists_congr fun word => exists_congr fun after =>
      and_congr_right fun hsplit => and_congr_left fun _ => (haccepted before ?_).symm
    rw [hsplit]
    exact List.subset_append_left _ _

/-! ## Values that read back -/

/-- The display of a value is a word that opens no quote and is read as the value. -/
structure ReadsBack (t : ValueType) (context : Context) (v : Value) : Prop where
  filled : v.display ≠ []
  inked : AllInk v.display
  unquoted : v.display.head? ≠ some '"'
  read : t.readAlone context v.display = .ok v

/-- Where the values of a list read back, so does the list. -/
theorem LocalForm.parse_display_list (h : LocalForm t) (hg : t.isGreedy = false)
    {items : List Value} (hitems : ∀ v ∈ items, t.ReadsBack context v) :
    t.list.parse (.ofText (Value.list items).display) context
      = ⟨.ok (.list items), ⟨(Value.list items).display, []⟩, []⟩ := by
  have hwords : words (Value.list items).display = items.map Value.display := by
    rw [Value.display, Value.displayList_eq_map]
    refine Text.words_joinWith fun part hpart => ?_
    obtain ⟨v, hv, rfl⟩ := List.mem_map.mp hpart
    exact ⟨(hitems v hv).filled, (hitems v hv).inked⟩
  have hquotes : ∀ word ∈ words (Value.list items).display, word.head? ≠ some '"' := by
    rw [hwords]
    intro word hword
    obtain ⟨v, hv, rfl⟩ := List.mem_map.mp hword
    exact (hitems v hv).unquoted
  have hrun : (words (Value.list items).display).mapM (t.readAlone context) = .ok items := by
    rw [hwords, mapM_eq_ok_iff, List.forall₂_map_left_iff, List.forall₂_same]
    exact fun v hv => (hitems v hv).read
  have hok : (t.list.parse (.ofText (Value.list items).display) context).result
      = .ok (.list items) :=
    (h.result_list hg hquotes).trans (congrArg (Except.map Value.list) hrun)
  refine h.list.readsWhole_iff.mp ⟨hok, ?_⟩
  rw [h.cursor_list hok]
  rfl

/-- An integer is displayed as its numeral, and reads back. -/
theorem readsBack_int (n : Int64) : ReadsBack .int context (.int n) := by
  have hdisplay : (Value.int n).display = Numeric.integerNumeral n.toInt := rfl
  obtain ⟨hne, hink, hquote⟩ := Numeric.integerNumeral_word n.toInt
  rw [← hdisplay] at hne hink hquote
  refine ⟨hne, hink, hquote, ?_⟩
  have hword := (Cursor.readWord_ofText_append Text.separated_nil).mpr ⟨rfl, hink⟩
  rw [List.append_nil] at hword
  rw [readAlone, takesWord_int, hword]
  dsimp only
  rw [hdisplay, Numeric.int64OfNumeral?_integerNumeral]

/-- A list of a built-in type that is not greedy reads a text in which no word opens a quote word by
word: it succeeds exactly if each word is accepted on its own, and then has their values and takes
the whole text; otherwise it fails as the leftmost word that is rejected.  What a list of integers
displays as reads back as that list. -/
theorem list_parse_words (context : Context) :
    (∀ (t : ValueType) (c : Cursor), t.BuiltIn → t.isGreedy = false →
        (∀ word ∈ words c.rest, word.head? ≠ some '"') → t.ReadsWords context c)
      ∧ ∀ ns : List Int64,
        (list .int).parse (.ofText (Value.list (ns.map .int)).display) context
          = ⟨.ok (.list (ns.map .int)), ⟨(Value.list (ns.map .int)).display, []⟩, []⟩ := by
  refine ⟨fun t c h hg hquotes => h.localForm.readsWords hg hquotes, fun ns => ?_⟩
  refine BuiltIn.int.localForm.parse_display_list rfl fun v hv => ?_
  obtain ⟨n, _, rfl⟩ := List.mem_map.mp hv
  exact readsBack_int n

/-- A context of trials of `toggle <switches>`. -/
def toggleContext : Context :=
  .start ⟨⟨1⟩, "player"⟩ ⟨⟨0⟩, "toggle <switches>", .none⟩ "toggle"

/-- Of two words that are no truth values, the left one makes the list fail. -/
theorem list_parse_words_maybe :
    BuiltIn .bool ∧ isGreedy .bool = false
      ∧ (∀ word ∈ words " true\tno maybe  7".toList, word.head? ≠ some '"')
      ∧ ((list .bool).parse (.ofText " true\tno maybe  7".toList) toggleContext).result
        = .error (.rejected "maybe".toList "expected true or false") := by
  have hquotes : ∀ word ∈ words " true\tno maybe  7".toList, word.head? ≠ some '"' := by decide
  have hreads := (list_parse_words toggleContext).1 .bool (.ofText " true\tno maybe  7".toList)
    .bool rfl hquotes
  refine ⟨.bool, rfl, hquotes, hreads.rejects_iff.mpr ?_⟩
  refine ⟨["true".toList, "no".toList], "maybe".toList, ["7".toList], by decide, ?_, by rfl⟩
  exact List.forall_mem_cons.mpr ⟨⟨.bool true, by rfl, by rfl⟩,
    List.forall_mem_cons.mpr ⟨⟨.bool false, by rfl, by rfl⟩, nofun⟩⟩

end ValueType

end CommandGrammar
