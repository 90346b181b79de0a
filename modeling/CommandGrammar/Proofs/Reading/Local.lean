import CommandGrammar.Proofs.Text.Quoting
import CommandGrammar.Proofs.Text.Words
import CommandGrammar.ValueType.Basic

/-!
# Reading is local

A built-in type looks at nothing but the unread text: not at what has been read, not at the
context.  It leaves no notes and moves over a start of the unread text.  One that is not greedy
looks no further than the text that it takes, so it reads a text in front of a blank exactly as it
reads that text on its own; a greedy one takes everything.

The scalars fall into two families, those that turn a word into a value and those that turn a word
or a quoted text into one, and each fact is proved once for a family.
-/

set_option autoImplicit false

namespace CommandGrammar

/-! ## Text in front of a cursor -/

namespace Cursor

/-- The cursor with more text in front of what has been read. -/
def behind (front : List Char) (c : Cursor) : Cursor := ⟨front ++ c.consumed, c.rest⟩

@[simp] theorem behind_rest (front : List Char) (c : Cursor) : (c.behind front).rest = c.rest := rfl

@[simp] theorem behind_atEnd (front : List Char) (c : Cursor) :
    (c.behind front).atEnd = c.atEnd := rfl

@[simp] theorem behind_atBlank (front : List Char) (c : Cursor) :
    (c.behind front).atBlank = c.atBlank := rfl

theorem behind_ofText (c : Cursor) : (ofText c.rest).behind c.consumed = c := by
  simp [behind, ofText]

theorem behind_readWhile (p : Char → Bool) (front : List Char) (c : Cursor) :
    (c.behind front).readWhile p = ((c.readWhile p).1, (c.readWhile p).2.behind front) := by
  simp [behind, readWhile]

theorem behind_skipBlanks (front : List Char) (c : Cursor) :
    (c.behind front).skipBlanks = c.skipBlanks.behind front := by
  simp [skipBlanks, behind_readWhile]

theorem behind_readWord (front : List Char) (c : Cursor) :
    (c.behind front).readWord = (c.readWord.1, c.readWord.2.behind front) :=
  behind_readWhile Text.isInk front c

theorem behind_readText (front : List Char) (c : Cursor) :
    (c.behind front).readText = (c.readText.1, c.readText.2.behind front) := by
  obtain ⟨consumed, rest⟩ := c
  unfold readText
  by_cases h : rest.head? = some '"'
  · cases rest with
    | nil => cases h
    | cons x rest => simp_all [behind, peek?, skipOne, next, readUntil]
  · simp [behind, peek?, h, readWord, readWhile]

/-- Passing over the blanks in front of a text that begins with none. -/
theorem skipBlanks_append {front gap text : List Char} (hgap : Text.AllBlank gap)
    (htext : Text.trimLeft text = text) :
    (Cursor.mk front (gap ++ text)).skipBlanks = ⟨front ++ gap, text⟩ := by
  have hnone : Text.leadingBlanks text = [] := by
    have hsplit := Text.leadingBlanks_append_trimLeft text
    rw [htext] at hsplit
    exact List.append_left_eq_self.mp hsplit
  have hskip : (Cursor.mk front (gap ++ text)).skipBlanks
      = ⟨front ++ Text.leadingBlanks (gap ++ text), Text.trimLeft (gap ++ text)⟩ := rfl
  have htake : Text.leadingBlanks (gap ++ text) = gap ++ Text.leadingBlanks text :=
    List.takeWhile_append_of_pos hgap
  rw [hskip, htake, hnone, Text.trimLeft_append_of_blank hgap, htext, List.append_nil]

/-- A word in front of a blank is read as it stands. -/
theorem readWord_append {front word after : List Char} (hword : Text.AllInk word)
    (hafter : Text.Separated after) :
    (Cursor.mk front (word ++ after)).readWord = (word, ⟨front ++ word, after⟩) := by
  have hread : (Cursor.mk front (word ++ after)).readWord
      = (Text.firstWord (word ++ after),
        ⟨front ++ Text.firstWord (word ++ after), Text.afterWord (word ++ after)⟩) := rfl
  rw [hread, Text.firstWord_append hword hafter, Text.afterWord_append hword hafter]

theorem peekWord_append {front word after : List Char} (hword : Text.AllInk word)
    (hafter : Text.Separated after) : (Cursor.mk front (word ++ after)).peekWord = word :=
  Text.firstWord_append hword hafter

/-- A written text between quotes is read as it stands, whatever follows it. -/
theorem readText_quoted_append (front content after : List Char) :
    (Cursor.mk front ('"' :: Quoted.encode '"' content ++ after)).readText
      = (.ok content, ⟨front ++ '"' :: Quoted.encode '"' content, after⟩) := by
  have hscan := Quoted.scan_encode '"' (by decide) content after
  simp [readText, peek?, skipOne, next, readUntil, hscan]

/-- The test for a place at which a word may end. -/
theorem separated_rest_iff {c : Cursor} :
    Text.Separated c.rest ↔ (!c.atEnd && !c.atBlank) = false := by
  simp [Text.Separated, atEnd, atBlank, or_iff_not_imp_left]

/-! ## What words and quoted texts take -/

theorem readWord_ofText_append {text left : List Char} (hleft : Text.Separated left)
    {w : List Char} :
    (ofText (text ++ left)).readWord = (w, ⟨text, left⟩) ↔ text = w ∧ Text.AllInk w := by
  have hread : (ofText (text ++ left)).readWord
      = (Text.firstWord (text ++ left),
        ⟨Text.firstWord (text ++ left), Text.afterWord (text ++ left)⟩) := rfl
  rw [hread]
  constructor
  · intro h
    simp only [Prod.mk.injEq, Cursor.mk.injEq] at h
    obtain ⟨hw, htext, _⟩ := h
    refine ⟨htext.symm.trans hw, ?_⟩
    rw [← hw]
    exact Text.allInk_firstWord _
  · rintro ⟨rfl, hink⟩
    rw [Text.firstWord_append hink hleft, Text.afterWord_append hink hleft]

/-- The text `text` stands for `w` where a word or a quoted text is read: it is a word that opens
no quote, or the written form of `w` between quotes. -/
def Spells (text w : List Char) : Prop :=
  (text.head? ≠ some '"' ∧ text = w ∧ Text.AllInk w) ∨ text = '"' :: Quoted.encode '"' w

/-- A separated text opens no quote. -/
theorem head?_ne_quote_of_separated {text : List Char} (h : Text.Separated text) :
    text.head? ≠ some '"' := by
  cases text with
  | nil => simp
  | cons c rest =>
    intro hc
    cases hc
    exact absurd (Text.separated_cons_iff.mp h) (by decide)

theorem readText_ofText_append {text left : List Char} (hleft : Text.Separated left)
    {w : List Char} :
    (ofText (text ++ left)).readText = (.ok w, ⟨text, left⟩) ↔ Spells text w := by
  by_cases hquote : text.head? = some '"'
  · -- a quoted text: its scan is independent of what follows
    obtain ⟨body, rfl⟩ : ∃ body, text = '"' :: body := by
      cases text with
      | nil => cases hquote
      | cons c body => cases hquote; exact ⟨body, rfl⟩
    have hread : (ofText ('"' :: body ++ left)).readText
        = ((Quoted.scan '"' (body ++ left)).result,
          ⟨'"' :: (Quoted.scan '"' (body ++ left)).passed,
            (Quoted.scan '"' (body ++ left)).left⟩) := by
      simp [readText, ofText, peek?, skipOne, next, readUntil]
    have hscan : (ofText ('"' :: body ++ left)).readText = (.ok w, ⟨'"' :: body, left⟩)
        ↔ Quoted.scan '"' (body ++ left) = ⟨.ok w, body, left⟩ := by
      rw [hread]
      cases Quoted.scan '"' (body ++ left)
      simp
    rw [hscan, Quoted.scan_eq_ok_iff (by decide)]
    simp [Spells]
  · have hopen : (text ++ left).head? ≠ some '"' := by
      cases text with
      | nil => exact head?_ne_quote_of_separated hleft
      | cons c rest => exact hquote
    have hread : (ofText (text ++ left)).readText
        = (.ok (ofText (text ++ left)).readWord.1, (ofText (text ++ left)).readWord.2) := by
      unfold readText
      exact if_neg hopen
    have hnot : text ≠ '"' :: Quoted.encode '"' w := by
      rintro rfl
      exact hquote rfl
    have hword : (ofText (text ++ left)).readWord = (w, ⟨text, left⟩) ↔ text = w ∧ Text.AllInk w :=
      readWord_ofText_append hleft
    rw [hread]
    simp only [Spells, hquote, hnot, or_false, ne_eq, not_false_eq_true, true_and, ← hword]
    cases (ofText (text ++ left)).readWord
    simp

end Cursor

/-- A read with more text in front of where it ended. -/
def Parsed.behind (front : List Char) (p : Parsed) : Parsed :=
  ⟨p.result, p.cursor.behind front, p.notes⟩

namespace ValueType

/-! ## Built-in types -/

/-- The types that the library brings along, and those that bound them: no validators and no types
of a host. -/
inductive BuiltIn : ValueType → Prop where
  | int : BuiltIn .int
  | float : BuiltIn .float
  | bool : BuiltIn .bool
  | char : BuiltIn .char
  | string : BuiltIn .string
  | text : BuiltIn .text
  | enumeration (spec : Enumeration) (caseSensitive : Bool) :
    BuiltIn (.enumeration spec caseSensitive)
  | list {inner : ValueType} (h : BuiltIn inner) : BuiltIn (.list inner)
  | ranged {inner : ValueType} (h : BuiltIn inner) (min max : Option Numeric.Binary64) :
      BuiltIn (.ranged inner min max)

/-- A type that turns the word at the cursor into a value. -/
def TakesWord (t : ValueType) (f : List Char → Except CommandError Value) : Prop :=
  ∀ (c : Cursor) (context : Context), t.parse c context = ⟨f c.readWord.1, c.readWord.2, []⟩

/-- A type that turns a word or a quoted text into a value. -/
def TakesText (t : ValueType)
    (f : Except InputFault (List Char) → Except CommandError Value) : Prop :=
  ∀ (c : Cursor) (context : Context), t.parse c context = ⟨f c.readText.1, c.readText.2, []⟩

/-- The ways in which a built-in type reads. -/
inductive LocalForm : ValueType → Prop where
  | word {t : ValueType} {f : List Char → Except CommandError Value} (h : TakesWord t f)
      (hgreedy : t.isGreedy = false) : LocalForm t
  | quoted {t : ValueType} {f : Except InputFault (List Char) → Except CommandError Value}
      (h : TakesText t f) (hfault : ∀ fault v, f (.error fault) ≠ .ok v)
      (hgreedy : t.isGreedy = false) : LocalForm t
  | text : LocalForm .text
  | list {inner : ValueType} (h : LocalForm inner) : LocalForm (.list inner)
  | ranged {inner : ValueType} (h : LocalForm inner) (min max : Option Numeric.Binary64) :
      LocalForm (.ranged inner min max)

theorem takesWord_int :
    TakesWord .int fun word =>
      match Numeric.int64OfNumeral? word with
      | some n => .ok (.int n)
      | none => .error (.rejected word "expected an integer") := by
  intro c context
  simp only [parse, quiet, Cursor.readInt]
  cases Numeric.int64OfNumeral? c.readWord.1 <;> rfl

theorem takesWord_float :
    TakesWord .float fun word =>
      match Numeric.binary64OfNumeral? word with
      | some x =>
        if x.isFinite then .ok (.float x) else .error (.rejected word "expected a decimal number")
      | none => .error (.rejected word "expected a decimal number") := by
  intro c context
  simp only [parse, quiet, Cursor.readFloat]
  cases Numeric.binary64OfNumeral? c.readWord.1 with
  | none => rfl
  | some x => cases hx : x.isFinite <;> simp [hx, Except.map]

theorem takesWord_char :
    TakesWord .char fun word =>
      match word with
      | [x] => .ok (.char x)
      | _ => .error (.rejected word "expected a single character") := by
  intro c context
  simp only [parse, readChar]
  obtain ⟨word, after⟩ := c.readWord
  rcases word with _ | ⟨x, _ | ⟨y, rest⟩⟩ <;> rfl

theorem takesWord_enumeration (spec : Enumeration) (caseSensitive : Bool) :
    TakesWord (.enumeration spec caseSensitive) fun word =>
      match variantOf? spec caseSensitive word with
      | some v => .ok (.variant v)
      | none =>
        .error (.rejected word ("expected one of: " ++ Text.enumerate spec.variants)) := by
  intro c context
  simp only [parse, readVariant]
  cases variantOf? spec caseSensitive c.readWord.1 <;> rfl

theorem takesText_bool :
    TakesText .bool fun read =>
      match read with
      | .error fault => .error (.malformed fault)
      | .ok word =>
        match Cursor.boolOfWord? word with
        | some b => .ok (.bool b)
        | none => .error (.rejected word "expected true or false") := by
  intro c context
  simp only [parse, quiet, Cursor.readBool]
  cases c.readText with
  | mk read after =>
    cases read with
    | error fault => rfl
    | ok word => cases hb : Cursor.boolOfWord? word <;> simp [hb, Except.map]

theorem takesText_string :
    TakesText .string fun read =>
      match read with
      | .ok word => .ok (.string (String.ofList word))
      | .error fault => .error (.malformed fault) := by
  intro c context
  simp only [parse, readString]
  cases c.readText with
  | mk read after => cases read <;> rfl

theorem BuiltIn.localForm {t : ValueType} (h : t.BuiltIn) : LocalForm t := by
  induction h with
  | int => exact .word takesWord_int rfl
  | float => exact .word takesWord_float rfl
  | bool => exact .quoted takesText_bool (fun _ _ h => nomatch h) rfl
  | char => exact .word takesWord_char rfl
  | string => exact .quoted takesText_string (fun _ _ h => nomatch h) rfl
  | text => exact .text
  | enumeration spec caseSensitive => exact .word (takesWord_enumeration spec caseSensitive) rfl
  | list _ ih => exact .list ih
  | ranged _ min max ih => exact .ranged ih min max

/-! ## Lists -/

section Entries

variable {readOne : Cursor → Parsed}

/-- Reading entries ends well only where the input ends. -/
theorem atEnd_of_readEntries {fuel : Nat} {c last : Cursor} {items : List Value}
    {notes : List Note} (h : readEntries readOne fuel c = (.ok items, last, notes)) :
    last.atEnd = true := by
  induction fuel generalizing c items notes with
  | zero =>
    rw [readEntries_zero] at h
    cases h
  | succ fuel ih =>
    rw [readEntries] at h
    dsimp only at h
    split at h
    · next hend =>
      cases h
      exact hend
    · split at h
      · simp at h
      · split at h
        · simp at h
        · next after _ _ _ =>
          cases hrest : readEntries readOne fuel after with
          | mk result rest =>
            rw [hrest] at h
            cases result with
            | error e => simp [Except.map] at h
            | ok later =>
              simp only [Prod.mk.injEq] at h
              obtain ⟨_, rfl, _⟩ := h
              exact ih hrest

/-- Where one entry is read behind more text as without it, so are all entries. -/
theorem readEntries_behind {readOther : Cursor → Parsed} {front : List Char}
    (hone : ∀ c, readOne (c.behind front) = (readOther c).behind front) (fuel : Nat) (c : Cursor) :
    readEntries readOne fuel (c.behind front)
      = ((readEntries readOther fuel c).1, (readEntries readOther fuel c).2.1.behind front,
        (readEntries readOther fuel c).2.2) := by
  induction fuel generalizing c with
  | zero => rfl
  | succ fuel ih =>
    simp only [readEntries, Cursor.behind_skipBlanks, Cursor.behind_atEnd, hone, Parsed.behind]
    by_cases hend : c.skipBlanks.atEnd = true
    · simp [hend]
    · cases readOther c.skipBlanks with
      | mk result after notes =>
        cases result with
        | error e => simp [hend]
        | ok value =>
          by_cases hsep : (!after.atEnd && !after.atBlank) = true
          · simp [hend, hsep]
          · simp [hend, hsep, ih after]

/-- Where no entry leaves a note, reading all of them leaves none. -/
theorem notes_readEntries (hone : ∀ c, (readOne c).notes = []) (fuel : Nat) (c : Cursor) :
    (readEntries readOne fuel c).2.2 = [] := by
  induction fuel generalizing c with
  | zero => rfl
  | succ fuel ih =>
    have hnotes := hone c.skipBlanks
    simp only [readEntries]
    by_cases hend : c.skipBlanks.atEnd = true
    · simp [hend]
    · cases hread : readOne c.skipBlanks with
      | mk result after notes =>
        rw [hread] at hnotes
        cases result with
        | error e => simpa [hend] using hnotes
        | ok value =>
          by_cases hsep : (!after.atEnd && !after.atBlank) = true
          · simpa [hend, hsep] using hnotes
          · simpa [hend, hsep, ih after] using hnotes

/-- Where reading an entry keeps the source, so does reading all of them. -/
theorem source_readEntries (hone : ∀ c, (readOne c).cursor.source = c.source) (fuel : Nat)
    (c : Cursor) : (readEntries readOne fuel c).2.1.source = c.source := by
  induction fuel generalizing c with
  | zero => rfl
  | succ fuel ih =>
    have hsource := hone c.skipBlanks
    rw [Cursor.source_skipBlanks] at hsource
    simp only [readEntries]
    by_cases hend : c.skipBlanks.atEnd = true
    · simp [hend]
    · cases hread : readOne c.skipBlanks with
      | mk result after notes =>
        rw [hread] at hsource
        cases result with
        | error e => simpa [hend] using hsource
        | ok value =>
          by_cases hsep : (!after.atEnd && !after.atBlank) = true
          · simpa [hend, hsep] using hsource
          · simpa [hend, hsep, ih after] using hsource

end Entries

/-! ## All built-in types -/

theorem LocalForm.parse_behind {t : ValueType} (h : LocalForm t) (front : List Char) (c : Cursor)
    (context other : Context) :
    t.parse (c.behind front) context = (t.parse c other).behind front := by
  induction h generalizing c with
  | word h _ => simp [h _ _, Cursor.behind_readWord, Parsed.behind]
  | quoted h _ _ => simp [h _ _, Cursor.behind_readText, Parsed.behind]
  | text =>
    rw [parse_text, parse_text]
    simp [Parsed.behind, Cursor.readRest, Cursor.behind]
  | @list inner h ih =>
    have hentries := @readEntries_behind (inner.parse · context) (inner.parse · other) front ih
      (c.rest.length + 1) c
    simp [parse, hentries, Parsed.behind]
  | @ranged inner h min max ih =>
    simp only [parse, ih]
    cases inner.parse c other with
    | mk result after notes => cases result <;> rfl

theorem LocalForm.notes_parse {t : ValueType} (h : LocalForm t) (c : Cursor) (context : Context) :
    (t.parse c context).notes = [] := by
  induction h generalizing c with
  | word h _ => simp [h _ _]
  | quoted h _ _ => simp [h _ _]
  | text => rfl
  | list h ih => simpa [parse] using notes_readEntries ih _ c
  | @ranged inner h min max ih =>
    have hnotes := ih c
    simp only [parse]
    cases hread : inner.parse c context with
    | mk result after notes =>
      rw [hread] at hnotes
      cases result <;> exact hnotes

theorem LocalForm.source_parse {t : ValueType} (h : LocalForm t) (c : Cursor) (context : Context) :
    (t.parse c context).cursor.source = c.source := by
  induction h generalizing c with
  | word h _ => simp [h _ _]
  | quoted h _ _ => simp [h _ _]
  | text =>
    rw [parse_text]
    exact Cursor.source_readRest c
  | list h ih => simpa [parse] using source_readEntries ih _ c
  | @ranged inner h min max ih =>
    have hsource := ih c
    simp only [parse]
    cases hread : inner.parse c context with
    | mk result after notes =>
      rw [hread] at hsource
      cases result <;> exact hsource

/-- A greedy type that succeeds has taken everything. -/
theorem LocalForm.atEnd_of_isGreedy {t : ValueType} (h : LocalForm t) (hg : t.isGreedy = true)
    {c : Cursor} {context : Context} {v : Value} (hok : (t.parse c context).result = .ok v) :
    (t.parse c context).cursor.atEnd = true := by
  induction h generalizing c v with
  | word h hgreedy => simp [hgreedy] at hg
  | quoted h _ hgreedy => simp [hgreedy] at hg
  | text => rfl
  | @list inner h ih =>
    simp only [parse] at hok ⊢
    cases hread : readEntries (fun c => inner.parse c context) (c.rest.length + 1) c with
    | mk result rest =>
      cases result with
      | error e => simp [hread, Except.map] at hok
      | ok items => exact atEnd_of_readEntries hread
  | @ranged inner h min max ih =>
    have hinner := @ih hg c
    simp only [parse] at hok ⊢
    cases hread : inner.parse c context with
    | mk result after notes =>
      rw [hread] at hok hinner
      cases result with
      | error e => cases hok
      | ok value => exact hinner rfl

/-- A text that a type reads on its own, to its end. -/
def ReadsWhole (t : ValueType) (context : Context) (text : List Char) (v : Value) : Prop :=
  (t.parse (.ofText text) context).result = .ok v
    ∧ (t.parse (.ofText text) context).cursor.atEnd = true

/-- The whole of what reading a text on its own gives. -/
theorem LocalForm.readsWhole_iff {t : ValueType} (h : LocalForm t) {context : Context}
    {text : List Char} {v : Value} :
    t.ReadsWhole context text v ↔ t.parse (.ofText text) context = ⟨.ok v, ⟨text, []⟩, []⟩ := by
  have hsource := h.source_parse (.ofText text) context
  have hnotes := h.notes_parse (.ofText text) context
  unfold ReadsWhole
  cases hread : t.parse (.ofText text) context with
  | mk result after notes =>
    obtain ⟨consumed, rest⟩ := after
    rw [hread] at hsource hnotes
    simp only [Cursor.source, Cursor.ofText, List.nil_append] at hsource hnotes
    simp only [Cursor.atEnd, List.isEmpty_iff, Parsed.mk.injEq, Cursor.mk.injEq, hnotes, and_true]
    constructor
    · rintro ⟨hok, rfl⟩
      exact ⟨hok, by simpa using hsource, rfl⟩
    · rintro ⟨hok, _, hrest⟩
      exact ⟨hok, hrest⟩

theorem parse_ranged_eq_ok_iff {inner : ValueType} {min max : Option Numeric.Binary64} {c : Cursor}
    {context : Context} {v : Value} {after : Cursor} {notes : List Note} :
    (ranged inner min max).parse c context = ⟨.ok v, after, notes⟩
      ↔ ∃ u, inner.parse c context = ⟨.ok u, after, notes⟩ ∧ boundValue min max u = .ok v := by
  simp only [parse]
  cases inner.parse c context with
  | mk result last more =>
    cases result with
    | error e => simp
    | ok u =>
      simp only [Parsed.mk.injEq, Except.ok.injEq]
      constructor
      · rintro ⟨hbound, rfl, rfl⟩
        exact ⟨u, ⟨rfl, rfl, rfl⟩, hbound⟩
      · rintro ⟨_, ⟨rfl, rfl, rfl⟩, hbound⟩
        exact ⟨hbound, rfl, rfl⟩

/-- What a type that is not greedy takes in front of a blank does not depend on what follows. -/
theorem LocalForm.parse_append_iff_self {t : ValueType} (h : LocalForm t)
    (hg : t.isGreedy = false) {context : Context} {text left : List Char}
    (hleft : Text.Separated left) {v : Value} :
    t.parse (.ofText (text ++ left)) context = ⟨.ok v, ⟨text, left⟩, []⟩
      ↔ t.parse (.ofText text) context = ⟨.ok v, ⟨text, []⟩, []⟩ := by
  induction h generalizing v with
  | @word t f h hgreedy =>
    have hword : ∀ after, Text.Separated after →
        (t.parse (.ofText (text ++ after)) context = ⟨.ok v, ⟨text, after⟩, []⟩
          ↔ Text.AllInk text ∧ f text = .ok v) := by
      intro after hafter
      rw [h _ context]
      constructor
      · intro hread
        simp only [Parsed.mk.injEq, and_true] at hread
        obtain ⟨hok, hcursor⟩ := hread
        obtain ⟨w, hw⟩ : ∃ w, (Cursor.ofText (text ++ after)).readWord = (w, ⟨text, after⟩) :=
          ⟨_, Prod.ext rfl hcursor⟩
        rw [hw] at hok
        obtain ⟨rfl, hink⟩ := (Cursor.readWord_ofText_append hafter).mp hw
        exact ⟨hink, hok⟩
      · rintro ⟨hink, hok⟩
        rw [(Cursor.readWord_ofText_append hafter).mpr ⟨rfl, hink⟩, hok]
    have hself := hword [] Text.separated_nil
    rw [List.append_nil] at hself
    rw [hword left hleft, hself]
  | @quoted t f h hfault hgreedy =>
    have htext : ∀ after, Text.Separated after →
        (t.parse (.ofText (text ++ after)) context = ⟨.ok v, ⟨text, after⟩, []⟩
          ↔ ∃ w, Cursor.Spells text w ∧ f (.ok w) = .ok v) := by
      intro after hafter
      rw [h _ context]
      constructor
      · intro hread
        simp only [Parsed.mk.injEq, and_true] at hread
        obtain ⟨hok, hcursor⟩ := hread
        cases hw : (Cursor.ofText (text ++ after)).readText.1 with
        | error fault =>
          rw [hw] at hok
          exact absurd hok (hfault fault v)
        | ok w =>
          rw [hw] at hok
          exact ⟨w, (Cursor.readText_ofText_append hafter).mp (Prod.ext hw hcursor), hok⟩
      · rintro ⟨w, hspells, hok⟩
        rw [(Cursor.readText_ofText_append hafter).mpr hspells, hok]
    have hself := htext [] Text.separated_nil
    rw [List.append_nil] at hself
    rw [htext left hleft, hself]
  | text => simp [isGreedy] at hg
  | list h ih => simp [isGreedy] at hg
  | ranged h min max ih => simp only [parse_ranged_eq_ok_iff, ih hg]

/-- A type that is not greedy reads a text in front of a blank as it reads it on its own. -/
theorem LocalForm.parse_append_iff {t : ValueType} (h : LocalForm t) (hg : t.isGreedy = false)
    {context : Context} {text left : List Char} (hleft : Text.Separated left) {v : Value} :
    t.parse (.ofText (text ++ left)) context = ⟨.ok v, ⟨text, left⟩, []⟩
      ↔ t.ReadsWhole context text v :=
  (h.parse_append_iff_self hg hleft).trans h.readsWhole_iff.symm

/-! ## Reading behind what has been read -/

section

variable {t : ValueType} (h : LocalForm t) {context : Context}
include h

/-- What has been read and resolved before plays no part in reading a text. -/
theorem LocalForm.parse_eq_behind (context : Context) (c : Cursor) (other : Context) :
    t.parse c context = (t.parse (.ofText c.rest) other).behind c.consumed := by
  have hbehind := h.parse_behind c.consumed (.ofText c.rest) context other
  rwa [Cursor.behind_ofText] at hbehind

/-- At a text that begins with ink, a built-in type succeeds and stops in front of a blank exactly
if it reads what it takes as it would on its own. -/
theorem LocalForm.parse_iff_readsWhole {other : Context} {c : Cursor} (hc : Text.StartsInk c.rest)
    {rest : List Char} {v : Value} :
    (∃ after notes, t.parse c other = ⟨.ok v, after, notes⟩ ∧ after.rest = rest
        ∧ Text.Separated rest)
      ↔ ∃ text, c.rest = text ++ rest ∧ Text.StartsInk text ∧ t.ReadsWhole context text v
        ∧ Text.Separated rest ∧ (t.isGreedy = true → rest = []) := by
  rw [h.parse_eq_behind other c context]
  have hsource := h.source_parse (.ofText c.rest) context
  have hnotes := h.notes_parse (.ofText c.rest) context
  constructor
  · rintro ⟨after, notes, hread, rfl, hsep⟩
    cases hparse : t.parse (.ofText c.rest) context with
    | mk result last more =>
      obtain ⟨text, left⟩ := last
      rw [hparse] at hread hsource hnotes
      simp only [Parsed.behind, Parsed.mk.injEq] at hread
      obtain ⟨rfl, rfl, rfl⟩ := hread
      have hcover : c.rest = text ++ left := hsource.symm
      have hnotes : more = [] := hnotes
      subst hnotes
      have hne : text ≠ [] := by
        rintro rfl
        rw [hcover] at hc
        exact hc.not_separated hsep
      rw [hcover] at hparse
      refine ⟨text, hcover, (hcover ▸ hc).of_append hne, ?_, hsep, ?_⟩
      · cases hg : t.isGreedy with
        | false => exact (h.parse_append_iff hg hsep).mp hparse
        | true =>
          have hend := h.atEnd_of_isGreedy hg (congrArg Parsed.result hparse)
          rw [hparse] at hend
          have hleft : left = [] := List.isEmpty_iff.mp hend
          subst hleft
          rw [List.append_nil] at hparse
          exact h.readsWhole_iff.mpr hparse
      · intro hg
        have hend := h.atEnd_of_isGreedy hg (congrArg Parsed.result hparse)
        rw [hparse] at hend
        exact List.isEmpty_iff.mp hend
  · rintro ⟨text, hcover, _, hwhole, hsep, hgreedy⟩
    have hparse : t.parse (.ofText (text ++ rest)) context = ⟨.ok v, ⟨text, rest⟩, []⟩ := by
      cases hg : t.isGreedy with
      | false => exact (h.parse_append_iff hg hsep).mpr hwhole
      | true =>
        rw [hgreedy hg, List.append_nil]
        exact h.readsWhole_iff.mp hwhole
    rw [hcover, hparse]
    exact ⟨_, _, rfl, rfl, hsep⟩

/-- A text in front of a blank is read in its place as it is read on its own. -/
theorem LocalForm.parse_of_readsWhole (hg : t.isGreedy = false) {text after : List Char}
    (hafter : Text.Separated after) {v : Value} (hwhole : t.ReadsWhole context text v)
    (front : List Char) (other : Context) :
    t.parse ⟨front, text ++ after⟩ other = ⟨.ok v, ⟨front ++ text, after⟩, []⟩ := by
  rw [h.parse_eq_behind _ _ context]
  dsimp only
  rw [(h.parse_append_iff hg hafter).mpr hwhole]
  rfl

end

end ValueType

end CommandGrammar
