import CommandGrammar.Proofs.Trial.Residue

/-!
# Inputs without flags

A pass over the flags looks at the words of the input, and at what is glued to the end of a text
between quotes.  Where nothing of that begins with a mark, it cuts nothing out and binds nothing.
What is left is the input without the blanks around it, and all flags have the values of their
absence: `extract_unflagged`.
-/

set_option autoImplicit false

namespace CommandGrammar

variable {α : Type}

namespace Text

/-- What is glued to the end of a text between quotes, where that text stands at the beginning of a
word, or is itself glued to another one. -/
inductive Glued (text : List Char) : List Char → Prop where
  | word {front back content : List Char} (hsplit : text = front ++ '"' :: back)
      (hfront : front = [] ∨ endsBlank front = true)
      (hscan : (Quoted.scan '"' back).result = .ok content)
      (hglued : ¬ Separated (Quoted.scan '"' back).left) : Glued text (Quoted.scan '"' back).left
  | quoted {back content : List Char} (hquoted : Glued text ('"' :: back))
      (hscan : (Quoted.scan '"' back).result = .ok content)
      (hglued : ¬ Separated (Quoted.scan '"' back).left) : Glued text (Quoted.scan '"' back).left

theorem Glued.not_separated {text left : List Char} (h : Glued text left) : ¬ Separated left := by
  cases h with
  | word _ _ _ hglued => exact hglued
  | quoted _ _ hglued => exact hglued

/-- Texts between quotes that end in front of blanks have nothing glued to them. -/
theorem QuotesApart.not_glued {text left : List Char} (h : QuotesApart text) :
    ¬ Glued text left := by
  intro hglued
  induction hglued with
  | word hsplit hfront hscan hglued => exact hglued (h.separated_left hsplit hfront hscan)
  | quoted _ _ _ ih => exact ih

theorem startsInk_of_not_separated {text : List Char} (h : ¬ Separated text) : StartsInk text := by
  cases text with
  | nil => exact absurd separated_nil h
  | cons c rest =>
    rw [separated_cons_iff, Bool.not_eq_true] at h
    exact startsInk_cons_iff.mpr (isInk_iff.mpr h)

end Text

namespace Settings

variable {settings : Settings} {word : List Char}

/-- Whether a word begins with the mark of long names or with that of shorthands. -/
def BeginsMarked (settings : Settings) (word : List Char) : Prop :=
  settings.longMark.toList <+: word ∨ settings.shortMark.toList <+: word

instance (settings : Settings) (word : List Char) : Decidable (settings.BeginsMarked word) :=
  inferInstanceAs (Decidable
    (settings.longMark.toList <+: word ∨ settings.shortMark.toList <+: word))

theorem afterMark?_eq_none {mark : List Char} (h : ¬ mark <+: word) :
    afterMark? mark word = none := by
  unfold afterMark?
  rw [if_neg]
  rw [Bool.and_eq_true, List.isPrefixOf_iff_prefix]
  exact fun hprefix => h hprefix.1

/-- A word without a mark begins a text between quotes, or is plain. -/
theorem role_of_not_beginsMarked (h : ¬ settings.BeginsMarked word) :
    settings.role word = if word.head? = some '"' then .quoted else .plain := by
  obtain ⟨hlong, hshort⟩ := not_or.mp h
  have hmark : word ≠ settings.longMark.toList := by
    rintro rfl
    exact hlong List.prefix_rfl
  have hname : settings.longName? word = none := afterMark?_eq_none hlong
  have hcluster : settings.cluster? word = none := by
    unfold cluster?
    rw [afterMark?_eq_none hshort]
  unfold role
  rw [if_neg hmark, hname, hcluster]

/-- Nothing that a pass over the flags looks at begins with a mark. -/
structure Unflagged (settings : Settings) (text : List Char) : Prop where
  words : ∀ word ∈ Text.words text, ¬ settings.BeginsMarked word
  glued : ∀ left, Text.Glued text left → ¬ settings.BeginsMarked (Text.firstWord left)

end Settings

namespace FlagScan

open Text

variable {settings : Settings} {c : Command α} {s : State} {text : List Char}

/-! ## Places -/

/-- Where a pass over a text stands: at a boundary, or at what is glued to a text between quotes. -/
structure PlacedIn (text : List Char) (cursor : Cursor) : Prop where
  source : cursor.source = text
  place : Boundary cursor.consumed cursor.rest ∨ Glued text cursor.rest

/-- Behind the blanks comes a word of the text with a blank or nothing before it, or what is
glued. -/
theorem PlacedIn.skipBlanks {cursor : Cursor} (h : PlacedIn text cursor)
    (hopen : cursor.skipBlanks.atEnd = false) :
    cursor.skipBlanks.source = text
      ∧ ((cursor.skipBlanks.consumed = [] ∨ endsBlank cursor.skipBlanks.consumed = true)
        ∨ Glued text cursor.skipBlanks.rest) := by
  refine ⟨(Cursor.source_skipBlanks cursor).trans h.source, h.place.imp ?_ ?_⟩
  · exact fun hboundary => hboundary.trimLeft (Cursor.startsInk_skipBlanks hopen).ne_nil
  · intro hglued
    have hrest : cursor.skipBlanks.rest = cursor.rest :=
      trimLeft_of_startsInk (startsInk_of_not_separated hglued.not_separated)
    rwa [hrest]

/-- The word there begins with no mark. -/
theorem PlacedIn.not_beginsMarked (hunflagged : settings.Unflagged text) {cursor : Cursor}
    (h : PlacedIn text cursor) (hopen : cursor.skipBlanks.atEnd = false) :
    ¬ settings.BeginsMarked cursor.skipBlanks.peekWord := by
  obtain ⟨hsource, hfront | hglued⟩ := h.skipBlanks hopen
  · apply hunflagged.words
    have hboundary : Boundary cursor.skipBlanks.consumed cursor.skipBlanks.rest :=
      hfront.elim .inl fun hblank => .inr (.inl hblank)
    rw [← hsource, Cursor.source, words_append hboundary,
      words_of_startsInk (Cursor.startsInk_skipBlanks hopen)]
    exact List.mem_append_right _ List.mem_cons_self
  · exact hunflagged.glued _ hglued

theorem PlacedIn.of_separated {cursor after : Cursor} (hsource : after.source = cursor.source)
    (htext : cursor.source = text) (hsep : Separated after.rest) : PlacedIn text after :=
  ⟨hsource.trans htext, .inl (.inr (.inr hsep))⟩

theorem PlacedIn.readWord {cursor : Cursor} (h : cursor.source = text) :
    PlacedIn text cursor.readWord.2 :=
  .of_separated (Cursor.source_readWord cursor) h (separated_afterWord cursor.rest)

/-- Passing over a text between quotes leads to a boundary, or to what is glued to it. -/
theorem PlacedIn.passQuoted {cursor : Cursor} (hsource : cursor.source = text)
    (hplace : (cursor.consumed = [] ∨ endsBlank cursor.consumed = true) ∨ Glued text cursor.rest) :
    PlacedIn text (FlagScan.passQuoted cursor) := by
  have htakes := takesOne_passQuoted cursor
  generalize FlagScan.passQuoted cursor = after at htakes ⊢
  cases htakes with
  | word => exact .readWord hsource
  | @quoted back content hquote hscan =>
    refine ⟨?_, ?_⟩
    · rw [← hsource, Cursor.source, Cursor.source, hquote, List.append_assoc, List.cons_append,
        Quoted.passed_append_left]
    · by_cases hsep : Separated (Quoted.scan '"' back).left
      · exact .inl (.inr (.inr hsep))
      · rcases hplace with hfront | hglued
        · refine .inr (.word ?_ hfront hscan hsep)
          rw [← hsource, Cursor.source, hquote]
        · rw [hquote] at hglued
          exact .inr (.quoted hglued hscan hsep)

/-! ## Turns -/

/-- A turn moves on by a word or by a text between quotes, and does nothing else. -/
theorem turn_unflagged (c : Command α) (hunflagged : settings.Unflagged text)
    (h : PlacedIn text s.cursor) (hopen : s.cursor.skipBlanks.atEnd = false) :
    ∃ cursor, turn settings c s = (.ok false, { s with cursor := cursor })
      ∧ PlacedIn text cursor ∧ workload cursor.rest + 2 ≤ workload s.cursor.rest := by
  obtain ⟨hsource, hplace⟩ := h.skipBlanks hopen
  have hink := Cursor.startsInk_skipBlanks hopen
  have hskipped : workload s.cursor.skipBlanks.rest ≤ workload s.cursor.rest :=
    workload_trimLeft_le s.cursor.rest
  unfold turn
  dsimp only
  rw [if_neg (by simp [hopen])]
  unfold turnAtWord
  dsimp only
  rw [Settings.role_of_not_beginsMarked (h.not_beginsMarked hunflagged hopen)]
  by_cases hquote : s.cursor.skipBlanks.peekWord.head? = some '"'
  · rw [if_pos hquote]
    exact ⟨_, rfl, .passQuoted hsource hplace,
      Nat.le_trans (workload_passQuoted_lt hink) hskipped⟩
  · rw [if_neg hquote]
    exact ⟨_, rfl, .readWord hsource, Nat.le_trans (workload_afterWord_lt hink) hskipped⟩

/-- A pass goes over the text and does nothing else. -/
theorem scan_unflagged (c : Command α) (hunflagged : settings.Unflagged text)
    (h : PlacedIn text s.cursor) {turns : Nat} (hturns : workload s.cursor.rest < 2 * turns) :
    ∃ last, last.source = text
      ∧ scan settings c turns s = some (.ok (), { s with cursor := last }) := by
  induction turns generalizing s with
  | zero => omega
  | succ turns ih =>
    rw [scan]
    cases hend : s.cursor.skipBlanks.atEnd with
    | true =>
      rw [turn_of_atEnd hend]
      exact ⟨_, (Cursor.source_skipBlanks _).trans h.source, rfl⟩
    | false =>
      obtain ⟨cursor, hturn, hplaced, hless⟩ := turn_unflagged c hunflagged h hend
      rw [hturn]
      exact ih hplaced (by dsimp only; omega)

end FlagScan

/-! ## What is absent -/

/-- The value of a standard slot's absence is the same in every context. -/
theorem Slot.result_absentValue_eq {s : Slot} (htype : s.type.Standard) (context other : Context) :
    (s.absentValue context).1 = (s.absentValue other).1 := by
  unfold absentValue
  split
  · rfl
  · split
    · next text _ =>
      dsimp only
      rw [htype.parse_eq_behind (.ofText text.toList) context other]
      rfl
    · rfl

theorem Text.withoutRanges_nil (text : List Char) : withoutRanges text [] = trim text := by
  have hpieces : (keptPieces text 0 []).foldl joinPiece [] = text := by
    cases text with
    | nil => rfl
    | cons c rest =>
      have hpos : 0 < byteLength (c :: rest) := byteLength_pos_iff.mpr (List.cons_ne_nil c rest)
      rw [keptPieces, if_pos hpos, dropBytes_zero]
      rfl
  unfold withoutRanges
  simp [hpieces]

namespace FlagScan

open Text

variable {settings : Settings} {c : Command α} {s : State} {text : List Char}

/-- Where the absent flags have values, nothing but the flags is bound. -/
theorem resolveAbsent_succeeds {flags : List Slot} (htypes : ∀ f ∈ flags, f.type.Standard)
    {context : Context} (hvalues : ∀ f ∈ flags, ∃ value, (f.absentValue context).1 = .ok value) :
    ∃ s', resolveAbsent c flags s = (.ok (), s') ∧ s'.context.actor = s.context.actor
      ∧ ∀ name, (∀ f ∈ flags, f.name ≠ name) →
        s'.context.arguments.get? name = s.context.arguments.get? name := by
  induction flags generalizing s with
  | nil => exact ⟨s, rfl, rfl, fun _ _ => rfl⟩
  | cons f rest ih =>
    obtain ⟨htype, htypes⟩ := List.forall_mem_cons.mp htypes
    obtain ⟨⟨value, hvalue⟩, hvalues⟩ := List.forall_mem_cons.mp hvalues
    rw [Slot.result_absentValue_eq htype context s.context] at hvalue
    rw [resolveAbsent]
    split
    · obtain ⟨s', hresolve, hactor, hsame⟩ := ih htypes hvalues
      exact ⟨s', hresolve, hactor, fun name hname => hsame name (List.forall_mem_cons.mp hname).2⟩
    · dsimp only
      rw [hvalue]
      obtain ⟨s', hresolve, hactor, hsame⟩ := ih htypes hvalues
      refine ⟨s', hresolve, hactor, fun name hname => ?_⟩
      obtain ⟨hfirst, hothers⟩ := List.forall_mem_cons.mp hname
      rw [hsame name hothers]
      exact (Arguments.get?_insert _ _ _ _).trans (if_neg hfirst.symm)

/-- Taking flags out of an input without flags leaves the input without the blanks around it, and
binds nothing but the flags. -/
theorem extract_unflagged (htypes : ∀ f ∈ c.flags, f.type.Standard)
    (hunflagged : settings.Unflagged text) {context : Context}
    (hvalues : ∀ f ∈ c.flags, ∃ value, (f.absentValue context).1 = .ok value) :
    ∃ after notes, extract settings c (.ofText text) context
        = some ⟨.ok (.ofText (trim text)), after, notes⟩
      ∧ after.actor = context.actor
      ∧ ∀ name, (∀ f ∈ c.flags, f.name ≠ name) →
        after.arguments.get? name = context.arguments.get? name := by
  have hstart : PlacedIn text (Cursor.ofText text) := ⟨rfl, .inl (.inl rfl)⟩
  obtain ⟨last, hsource, hscan⟩ := scan_unflagged c hunflagged
    (s := ⟨.ofText text, context, [], [], []⟩) hstart (workload_lt_turnLimit c (.ofText text))
  obtain ⟨s', hresolve, hactor, hsame⟩ := resolveAbsent_succeeds (c := c)
    (s := ⟨last, context, [], [], []⟩) htypes hvalues
  obtain ⟨hcursor, hcuts⟩ := resolveAbsent_text hresolve
  have hleft : withoutRanges s'.cursor.source s'.cuts = trim text := by
    rw [hcursor, hcuts, hsource, withoutRanges_nil]
  refine ⟨s'.context, s'.notes, ?_, hactor, hsame⟩
  rw [extract_of_scan hscan, hresolve, Outcome.ofStep, hleft]

end FlagScan

end CommandGrammar
