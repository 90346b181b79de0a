import CommandGrammar.Proofs.Text.Boundaries
import CommandGrammar.Proofs.Trial.Turns

/-!
# What taking flags out leaves

A pass cuts from where it stands before a word to where it stands behind what the word has asked
for.  It comes to stand in the middle of a word where something is glued to the end of a text
between quotes, and behind the input where a flag has read its default text.

Where neither happens, every cut begins and ends at a boundary of the input, and the words left are
words of the input, in its order: `extract_words`.  `extract_splits_word` shows what comes of
glued text and of a default text that is not used up.
-/

set_option autoImplicit false

namespace CommandGrammar

variable {α : Type}

/-! ## Places behind a word -/

namespace Cursor

/-- A cursor has moved on behind `front`.  It stands at a boundary of the text, or only blanks are
left to read. -/
structure Past (text front : List Char) (c : Cursor) : Prop where
  moved : ∃ taken, taken ≠ [] ∧ c.consumed = front ++ taken
  place : (c.source = text ∧ Text.Separated c.rest) ∨ Text.AllBlank c.rest

/-- Where nothing is glued to quoted texts, a word or a quoted text ends in front of a blank. -/
theorem TakesOne.separated {text : List Char} (hquotes : Text.QuotesApart text) {c after : Cursor}
    (h : c.TakesOne after) (hsource : c.source = text)
    (hfront : c.consumed = [] ∨ Text.endsBlank c.consumed = true) :
    Text.Separated after.rest := by
  cases h with
  | word => exact Text.separated_afterWord c.rest
  | quoted hquote hscan =>
    refine hquotes.separated_left ?_ hfront hscan
    rw [← hsource, ← hquote]
    rfl

/-- Reading on behind the blanks moves further. -/
theorem Past.exists_taken {text front : List Char} {c : Cursor} (h : c.Past text front)
    (more : List Char) : ∃ taken, taken ≠ [] ∧ c.skipBlanks.consumed ++ more = front ++ taken := by
  obtain ⟨taken, hne, htaken⟩ := h.moved
  refine ⟨taken ++ (Text.leadingBlanks c.rest ++ more), List.append_ne_nil_of_left_ne_nil hne _, ?_⟩
  have hskipped : c.skipBlanks.consumed = c.consumed ++ Text.leadingBlanks c.rest := rfl
  rw [hskipped, htaken, List.append_assoc, List.append_assoc]

end Cursor

/-! ## Reading flags -/

namespace Slot

open Text

variable {text front : List Char} {f : Slot} {cursor : Cursor} {context : Context} {value : Value}

/-- A default text that is used up leaves only blanks. -/
theorem past_parse_of_atEnd (htype : f.type.Standard) (hflag : f.isSwitch = false)
    (hwhole : f.DefaultWhole) (h : cursor.Past text front) (hend : cursor.skipBlanks.atEnd = true)
    (hparse : (f.parse cursor.skipBlanks context).result = .ok value) :
    (f.parse cursor.skipBlanks context).cursor.Past text front where
  moved := by
    obtain ⟨_, hdefault⟩ := parse_eq_of_atEnd hend hparse
    rw [hdefault]
    cases f.parameter.defaultText with
    | none => simpa using h.exists_taken []
    | some default =>
      obtain ⟨more, left, _, hcursor⟩ :=
        htype.exists_moved (cursor.skipBlanks.extend default.toList) context
      dsimp only
      rw [hcursor]
      exact h.exists_taken more
  place := .inr ((parse_of_atEnd htype hflag hend hparse).2 hwhole)

/-- A value in the text ends at a boundary. -/
theorem past_parse_of_not_atEnd (hquotes : QuotesApart text) (htype : f.type.Standard)
    (h : cursor.Past text front) (hend : cursor.skipBlanks.atEnd = false)
    (hparse : (f.parse cursor.skipBlanks context).result = .ok value) :
    (f.parse cursor.skipBlanks context).cursor.Past text front := by
  have htyped := parse_eq_of_not_atEnd hend hparse
  rw [htyped] at hparse ⊢
  constructor
  case moved =>
    obtain ⟨more, left, _, hcursor⟩ := htype.exists_moved cursor.skipBlanks context
    rw [hcursor]
    exact h.exists_taken more
  case place =>
    have hopen : trimLeft cursor.rest ≠ [] := (Cursor.startsInk_skipBlanks hend).ne_nil
    obtain ⟨hsource, hsep⟩ :=
      h.place.resolve_right fun hblank => hopen (trimLeft_eq_nil_iff.mpr hblank)
    have hplaced : Boundary cursor.consumed cursor.rest := .inr (.inr hsep)
    have hskipped : cursor.skipBlanks.source = text := by rw [Cursor.source_skipBlanks, hsource]
    refine .inl ⟨(htype.source_parse _ _).trans hskipped, ?_⟩
    cases hgreedy : f.type.isGreedy with
    | true =>
      rw [List.isEmpty_iff.mp (htype.atEnd_of_isGreedy hgreedy hparse)]
      exact separated_nil
    | false =>
      exact (htype.takesOne hgreedy hparse).separated hquotes hskipped (hplaced.trimLeft hopen)

end Slot

namespace FlagScan

open Text

variable {settings : Settings} {c : Command α} {s s' : State} {text front : List Char}

/-- Reading a flag leaves the cursor at a boundary, and cuts nothing out. -/
theorem readFlag_past (hquotes : QuotesApart text) {f : Slot} (htype : f.type.Standard)
    (hwhole : f.isSwitch = false → f.DefaultWhole) (h : s.cursor.Past text front)
    (hread : readFlag c f s = (.ok (), s')) : s'.cursor.Past text front ∧ s'.cuts = s.cuts := by
  unfold readFlag at hread
  dsimp only at hread
  split at hread
  · split at hread
    · cases hread
      exact ⟨h, rfl⟩
    · cases hread
  · next hswitch =>
    have hflag : f.isSwitch = false := by simpa using hswitch
    split at hread
    · cases hread
    · split at hread
      · next value hparse =>
        cases hread
        refine ⟨?_, rfl⟩
        cases hend : s.cursor.skipBlanks.atEnd with
        | true => exact Slot.past_parse_of_atEnd htype hflag (hwhole hflag) h hend hparse
        | false => exact Slot.past_parse_of_not_atEnd hquotes htype h hend hparse
      · cases hread

theorem ReadsFlags.past (hquotes : QuotesApart text) (hflags : DefaultsWhole c)
    (h : s.cursor.Past text front) (hread : ReadsFlags c s s') :
    s'.cursor.Past text front ∧ s'.cuts = s.cuts := by
  induction hread with
  | none s => exact ⟨h, rfl⟩
  | more hf hflag _ ih =>
    obtain ⟨htype, hwhole⟩ := hflags _ hf
    obtain ⟨hafter, hcuts⟩ := readFlag_past hquotes htype hwhole h hflag
    obtain ⟨hlast, hlater⟩ := ih hafter
    exact ⟨hlast, hlater.trans hcuts⟩

/-! ## What a pass keeps -/

/-- A pass over a text has divided what it has read into runs that stay and parts that are cut out.
The words of the runs are words of what it has read, which ends at a boundary of the text; or they
are words of the text, and only blanks are left to read. -/
structure State.Divides (text : List Char) (cuts : List Excision) (run : List Char) (s : State) :
    Prop where
  whole : wholeText (chunksOf cuts run) = s.cursor.consumed
  ranges : cutRanges 0 (chunksOf cuts run) = s.cuts
  filled : ∀ e ∈ cuts, e.cut ≠ []
  kept : (s.cursor.source = text ∧ Boundary s.cursor.consumed s.cursor.rest
      ∧ (keptOf cuts ++ words run).Sublist (words s.cursor.consumed))
    ∨ (AllBlank s.cursor.rest ∧ (keptOf cuts ++ words run).Sublist (words text))

/-- A pass has divided a text, into some runs and cuts. -/
def State.Divided (text : List Char) (s : State) : Prop := ∃ cuts run, s.Divides text cuts run

namespace State.Divides

variable {cuts : List Excision} {run : List Char}

/-- Where there is a word to read, the pass stands in the text. -/
theorem inText (h : s.Divides text cuts run) (hink : StartsInk s.cursor.rest) :
    s.cursor.source = text ∧ Boundary s.cursor.consumed s.cursor.rest
      ∧ (keptOf cuts ++ words run).Sublist (words s.cursor.consumed) :=
  h.kept.resolve_right fun hblank => hink.not_separated hblank.1.separated

/-- The run ends where the pass stands. -/
theorem boundary_run (h : s.Divides text cuts run) {back : List Char}
    (hplace : Boundary s.cursor.consumed back) : Boundary run back := by
  rw [← h.whole, ← List.nil_append run, wholeText_chunksOf_append] at hplace
  exact hplace.of_append

/-- What is passed over up to a boundary makes the run longer. -/
theorem pass (h : s.Divides text cuts run) {taken after : List Char}
    (hrest : s.cursor.rest = taken ++ after)
    (hcursor : s'.cursor = ⟨s.cursor.consumed ++ taken, after⟩)
    (hcuts : s'.cuts = s.cuts) (hplace : Boundary (s.cursor.consumed ++ taken) after) :
    s'.Divides text cuts (run ++ taken) where
  whole := by rw [wholeText_chunksOf_append, h.whole, hcursor]
  ranges := by rw [cutRanges_chunksOf_append, h.ranges, hcuts]
  filled := h.filled
  kept := by
    rw [hcursor]
    obtain ⟨hsource, hbefore, hkept⟩ | ⟨hblank, hkept⟩ := h.kept
    · left
      rw [hrest] at hbefore
      have hleft := hbefore.left
      rw [words_append (h.boundary_run hleft), words_append hleft, ← List.append_assoc]
      refine ⟨?_, hplace, hkept.append_right _⟩
      rw [← hsource, Cursor.source, Cursor.source, hrest, List.append_assoc]
    · right
      rw [hrest] at hblank
      have htaken : AllBlank taken := fun x hx => hblank x (List.mem_append_left _ hx)
      rw [words_append_blank run htaken]
      exact ⟨fun x hx => hblank x (List.mem_append_right _ hx), hkept⟩

/-- What has been read for a word is cut out. -/
theorem cut (h : s.Divides text cuts run) (hink : StartsInk s.cursor.rest)
    (hfront : s.cursor.consumed = [] ∨ endsBlank s.cursor.consumed = true)
    (hpast : s'.cursor.Past text s.cursor.consumed) (hcuts : s'.cuts = s.cuts) :
    (s'.cutFrom s.cursor.position).Divided text := by
  obtain ⟨hsource, _, hkept⟩ := h.inText hink
  obtain ⟨⟨taken, hne, hconsumed⟩, hplace⟩ := hpast
  have hboundary (back : List Char) : Boundary s.cursor.consumed back :=
    hfront.elim .inl fun hblank => .inr (.inl hblank)
  have hwords : keptOf (cuts ++ [⟨run, taken⟩]) ++ words [] = keptOf cuts ++ words run := by
    simp [keptOf, words, wordsFrom]
  refine ⟨cuts ++ [⟨run, taken⟩], [], ?_⟩
  constructor
  case whole =>
    rw [chunksOf_concat, wholeText_append, h.whole]
    simpa [cutFrom] using hconsumed.symm
  case ranges =>
    rw [chunksOf_concat, cutRanges_append, h.ranges, h.whole, ← hcuts]
    simp [cutRanges, cutFrom, Cursor.position, hconsumed]
  case filled =>
    exact List.forall_mem_append.mpr ⟨h.filled, List.forall_mem_singleton.mpr hne⟩
  case kept =>
    rw [hwords]
    dsimp only [cutFrom]
    rcases hplace with ⟨hsame, hsep⟩ | hblank
    · refine .inl ⟨hsame, .inr (.inr hsep), ?_⟩
      rw [hconsumed, words_append (hboundary taken)]
      exact hkept.trans (List.sublist_append_left _ _)
    · refine .inr ⟨hblank, ?_⟩
      rw [← hsource, Cursor.source, words_append (hboundary s.cursor.rest)]
      exact hkept.trans (List.sublist_append_left _ _)

/-- What is left once the parts are cut out has words of the text only, in their order. -/
theorem words_left (h : s.Divides text cuts run) :
    (words (withoutRanges s.cursor.source s.cuts)).Sublist (words text) := by
  have hwhole : s.cursor.source = wholeText (chunksOf cuts (run ++ s.cursor.rest)) := by
    rw [wholeText_chunksOf_append, h.whole]
    rfl
  have hranges : s.cuts = cutRanges 0 (chunksOf cuts (run ++ s.cursor.rest)) := by
    rw [cutRanges_chunksOf_append, h.ranges]
  rw [hwhole, hranges, words_withoutRanges h.filled]
  obtain ⟨hsource, hplace, hkept⟩ | ⟨hblank, hkept⟩ := h.kept
  · rw [← hsource, Cursor.source, words_append hplace, words_append (h.boundary_run hplace),
      ← List.append_assoc]
    exact hkept.append_right _
  · rw [words_append_blank run hblank]
    exact hkept

end State.Divides

/-! ## Turns -/

theorem past_readWord {cursor : Cursor} (hink : StartsInk cursor.rest)
    (hsource : cursor.source = text) : cursor.readWord.2.Past text cursor.consumed where
  moved := ⟨firstWord cursor.rest, firstWord_ne_nil hink, rfl⟩
  place := .inl ⟨(Cursor.source_readWord cursor).trans hsource, separated_afterWord cursor.rest⟩

/-- Passing over blanks leads to the end, or to a word with a blank or nothing before it. -/
theorem skipBlanks_divides {cuts : List Excision} {run : List Char}
    (h : s.Divides text cuts run) :
    s.skipBlanks.Divides text cuts (run ++ leadingBlanks s.cursor.rest)
      ∧ (s.cursor.skipBlanks.atEnd = false → s.skipBlanks.cursor.consumed = []
        ∨ endsBlank s.skipBlanks.cursor.consumed = true) := by
  have hfront (hopen : trimLeft s.cursor.rest ≠ []) : s.cursor.skipBlanks.consumed = []
      ∨ endsBlank s.cursor.skipBlanks.consumed = true := by
    have hinText := h.kept.resolve_right fun hblank => hopen (trimLeft_eq_nil_iff.mpr hblank.1)
    exact hinText.2.1.trimLeft hopen
  refine ⟨h.pass (leadingBlanks_append_trimLeft s.cursor.rest).symm rfl rfl ?_,
    fun hopen => hfront (Cursor.startsInk_skipBlanks hopen).ne_nil⟩
  by_cases hnone : trimLeft s.cursor.rest = []
  · rw [hnone]
    exact .inr (.inr separated_nil)
  · exact (hfront hnone).imp_right .inl

/-- A turn goes from boundary to boundary. -/
theorem Turned.divided (hquotes : QuotesApart text) (hflags : DefaultsWhole c)
    (h : s.Divided text) {finished : Bool} (hturn : Turned c s finished s') : s'.Divided text := by
  obtain ⟨cuts, run, hdivides⟩ := h
  obtain ⟨hskipped, hfront⟩ := skipBlanks_divides hdivides
  have hword (hopen : s.cursor.skipBlanks.atEnd = false) :
      s.skipBlanks.behindWord.cursor.Past text s.skipBlanks.cursor.consumed := by
    have hink := Cursor.startsInk_skipBlanks hopen
    exact past_readWord hink (hskipped.inText hink).1
  cases hturn with
  | atEnd => exact ⟨cuts, _, hskipped⟩
  | marked hopen =>
    exact hskipped.cut (Cursor.startsInk_skipBlanks hopen) (hfront hopen) (hword hopen) rfl
  | flags hopen hread =>
    obtain ⟨hpast, hcuts⟩ := hread.past hquotes hflags (hword hopen)
    exact hskipped.cut (Cursor.startsInk_skipBlanks hopen) (hfront hopen) hpast hcuts
  | quoted hopen =>
    have htakes := takesOne_passQuoted s.skipBlanks.cursor
    obtain ⟨taken, left, hrest, hcursor⟩ := htakes.exists_taken
    have hsource := (hskipped.inText (Cursor.startsInk_skipBlanks hopen)).1
    have hsep := htakes.separated hquotes hsource (hfront hopen)
    rw [hcursor] at hsep
    exact ⟨cuts, _, hskipped.pass hrest hcursor rfl (.inr (.inr hsep))⟩
  | plain hopen =>
    have hrest := firstWord_append_afterWord s.skipBlanks.cursor.rest
    have hsep := separated_afterWord s.skipBlanks.cursor.rest
    exact ⟨cuts, _, hskipped.pass hrest.symm rfl rfl (.inr (.inr hsep))⟩

/-! ## Passes -/

theorem divides_ofText (text : List Char) (context : Context) :
    State.Divides text [] [] ⟨.ofText text, context, [], [], []⟩ where
  whole := rfl
  ranges := rfl
  filled := List.forall_mem_nil _
  kept := .inl ⟨rfl, .inl rfl, List.Sublist.refl _⟩

/-- What is absent is not looked for in the text. -/
theorem resolveAbsent_text {flags : List Slot} (h : resolveAbsent c flags s = (.ok (), s')) :
    s'.cursor = s.cursor ∧ s'.cuts = s.cuts := by
  induction flags generalizing s with
  | nil =>
    cases h
    exact ⟨rfl, rfl⟩
  | cons f rest ih =>
    rw [resolveAbsent] at h
    split at h
    · exact ih h
    · dsimp only at h
      split at h
      · cases h
      · obtain ⟨hcursor, hcuts⟩ := ih h
        exact ⟨hcursor, hcuts⟩

/-- Where the flags use up their default texts and nothing is glued to the end of a text between
quotes, the words that are left once the flags are out are words of the input, in its order. -/
theorem extract_words (hflags : DefaultsWhole c) {actor : Actor} {input : String}
    (hquotes : QuotesApart input.toList) {rest : Cursor} {context : Context} {notes : List Note}
    (h : extract settings c (.ofText input.toList) (.start actor c.info input)
      = some ⟨.ok rest, context, notes⟩) :
    (words rest.source).Sublist (words input.toList) := by
  obtain ⟨scanned, resolved, hscan, hresolve, _, rfl⟩ := extract_cases h
  obtain ⟨hcursor, hcuts⟩ := resolveAbsent_text hresolve
  have hstart := divides_ofText input.toList (.start actor c.info input)
  obtain ⟨cuts, run, hdivides⟩ :=
    scan_preserves (fun _ _ _ hbefore hturn => hturn.divided hquotes hflags hbefore)
      ⟨[], [], hstart⟩ hscan
  rw [Cursor.source_ofText, hcursor, hcuts]
  exact hdivides.words_left

/-- Where `say` reads a note, what is left has the words before and behind it. -/
theorem exists_extract_say {text input note : String} {turns : Nat}
    (hturns : turns ≤ input.toList.length + 2) {before cut run : List Char} {left : Cursor}
    (hscan : ∀ more, scan .standard (say text) (more + turns) (.start (say text) default input)
      = some (.ok (), ⟨left,
          (Context.start default (say text).info input).bind "note" (.string note), [],
          cutRanges 0 (chunksOf [⟨before, cut⟩] run), ["note"]⟩))
    (hcut : cut ≠ []) (hsource : left.source = wholeText (chunksOf [⟨before, cut⟩] run)) :
    ∃ rest context notes, extract .standard (say text) (.ofText input.toList)
        (.start default (say text).info input) = some ⟨.ok rest, context, notes⟩
      ∧ words rest.source = words before ++ words run := by
  have hlt := lt_turnLimit (say text) (.ofText input.toList)
  obtain ⟨more, hmore⟩ : ∃ more, turnLimit (say text) (.ofText input.toList) = more + turns :=
    ⟨_, (Nat.sub_add_cancel (Nat.le_trans hturns hlt)).symm⟩
  have hlimit := hscan more
  rw [← hmore] at hlimit
  have hfilled : ∀ e ∈ [Excision.mk before cut], e.cut ≠ [] := List.forall_mem_singleton.mpr hcut
  refine ⟨.ofText (withoutRanges left.source (cutRanges 0 (chunksOf [⟨before, cut⟩] run))),
    _, _, extract_of_scan hlimit, ?_⟩
  rw [Cursor.source_ofText, hsource, words_withoutRanges hfilled, keptOf, List.flatMap_singleton]

theorem extract_words_say :
    DefaultsWhole (say "x") ∧ QuotesApart "say --note \"a b\" hi".toList
      ∧ ∃ rest context notes, extract .standard (say "x") (.ofText "say --note \"a b\" hi".toList)
          (.start default (say "x").info "say --note \"a b\" hi") = some ⟨.ok rest, context, notes⟩
        ∧ (words rest.source).Sublist (words "say --note \"a b\" hi".toList) := by
  have hquotes : QuotesApart "say --note \"a b\" hi".toList := by decide +kernel
  have hscan (more : Nat) : scan .standard (say "x") (more + 5)
      (.start (say "x") default "say --note \"a b\" hi")
        = some (.ok (), ⟨⟨"say --note \"a b\" hi".toList, []⟩,
            (Context.start default (say "x").info "say --note \"a b\" hi").bind "note"
              (.string "a b"), [],
            cutRanges 0 (chunksOf [⟨"say ".toList, "--note \"a b\"".toList⟩] " hi".toList),
            ["note"]⟩) := by
    unfold State.start
    simp only [String.reduceToList]
    rfl
  obtain ⟨rest, context, notes, hextract, _⟩ :=
    exists_extract_say (by decide) hscan (by decide) (by decide)
  exact ⟨defaultsWhole_say, hquotes, rest, context, notes, hextract,
    extract_words defaultsWhole_say hquotes hextract⟩

/-- Text that is glued to a quoted value is left as a word of its own, and so is what the type of a
flag leaves of its default text. -/
theorem extract_splits_word :
    Compile.compile (.standard Unit) (saying "x") "say <word>" ⟨0⟩ = .ok (say "x")
      ∧ (∃ rest context notes, extract .standard (say "x") (.ofText "say --note \"a\"b hi".toList)
            (.start default (say "x").info "say --note \"a\"b hi") = some ⟨.ok rest, context, notes⟩
          ∧ words rest.source = ["say".toList, "b".toList, "hi".toList]
          ∧ ¬ (words rest.source).Sublist (words "say --note \"a\"b hi".toList))
      ∧ Compile.compile (.standard Unit) (saying "x y") "say <word>" ⟨0⟩ = .ok (say "x y")
      ∧ (∃ rest context notes, extract .standard (say "x y") (.ofText "say hi --note".toList)
            (.start default (say "x y").info "say hi --note") = some ⟨.ok rest, context, notes⟩
          ∧ words rest.source = ["say".toList, "hi".toList, "y".toList]
          ∧ ¬ (words rest.source).Sublist (words "say hi --note".toList)) := by
  refine ⟨rfl, ?_, rfl, ?_⟩
  · have hscan (more : Nat) : scan .standard (say "x") (more + 5)
        (.start (say "x") default "say --note \"a\"b hi")
          = some (.ok (), ⟨⟨"say --note \"a\"b hi".toList, []⟩,
              (Context.start default (say "x").info "say --note \"a\"b hi").bind "note"
                (.string "a"), [],
              cutRanges 0 (chunksOf [⟨"say ".toList, "--note \"a\"".toList⟩] "b hi".toList),
              ["note"]⟩) := by
      unfold State.start
      simp only [String.reduceToList]
      rfl
    obtain ⟨rest, context, notes, hextract, hwords⟩ :=
      exists_extract_say (by decide) hscan (by decide) (by decide)
    refine ⟨rest, context, notes, hextract, hwords, ?_⟩
    rw [hwords]
    decide
  · have hscan (more : Nat) : scan .standard (say "x y") (more + 5)
        (.start (say "x y") default "say hi --note")
          = some (.ok (), ⟨⟨"say hi --notex y".toList, []⟩,
              (Context.start default (say "x y").info "say hi --note").bind "note"
                (.string "x"), [],
              cutRanges 0 (chunksOf [⟨"say hi ".toList, "--notex".toList⟩] " y".toList),
              ["note"]⟩) := by
      unfold State.start
      simp only [String.reduceToList]
      rfl
    obtain ⟨rest, context, notes, hextract, hwords⟩ :=
      exists_extract_say (by decide) hscan (by decide) (by decide)
    refine ⟨rest, context, notes, hextract, hwords, ?_⟩
    rw [hwords]
    decide

end FlagScan

end CommandGrammar
