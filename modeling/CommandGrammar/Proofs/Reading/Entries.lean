import CommandGrammar.Proofs.Cursor.Movement
import CommandGrammar.Proofs.Reading.Trailing
import CommandGrammar.ValueType.Ready

/-!
# Lists end

The loop over the entries of a list does not ask of their type that it takes anything.  It ends all
the same, for any type that keeps the source and does not go back: an entry is read at a character
of a word, and the loop goes on only behind an entry that a blank or the end of the input follows.
The two places differ, so an entry behind which the loop goes on has taken a character.

`Entries` is the loop without a bound on its turns.  Each derivation is finite, so a list comes to
an end exactly where there is one, and the turns that are counted for it are then enough
(`Entries.readEntries_eq`).  A type that goes back may have none (`not_entries_of_back`).
-/

set_option autoImplicit false

namespace CommandGrammar.ValueType

open Text (Separated)

/-- What the loop over the entries of a list does from a cursor on: how many entries it reads, and
what it ends with. -/
inductive Entries (readOne : Cursor → Parsed) :
    Cursor → Nat → Except CommandError (List Value) × Cursor × List Note → Prop where
  /-- nothing but blanks is left -/
  | finished {c : Cursor} (hend : c.skipBlanks.atEnd = true) :
      Entries readOne c 0 (.ok [], c.skipBlanks, [])
  /-- the type rejects what it finds -/
  | rejected {c after : Cursor} {e : CommandError} {notes : List Note}
      (hopen : c.skipBlanks.atEnd = false) (hread : readOne c.skipBlanks = ⟨.error e, after, notes⟩) :
      Entries readOne c 0 (.error e, after, notes)
  /-- an entry is read, and the next word touches it -/
  | touched {c after : Cursor} {value : Value} {notes : List Note}
      (hopen : c.skipBlanks.atEnd = false) (hread : readOne c.skipBlanks = ⟨.ok value, after, notes⟩)
      (hglued : ¬ Separated after.rest) :
      Entries readOne c 1 (.error (.malformed .missingBlank), after, notes)
  /-- an entry is read, and the loop goes on behind it -/
  | more {c after last : Cursor} {value : Value} {notes others : List Note} {count : Nat}
      {later : Except CommandError (List Value)}
      (hopen : c.skipBlanks.atEnd = false) (hread : readOne c.skipBlanks = ⟨.ok value, after, notes⟩)
      (hsep : Separated after.rest) (hlater : Entries readOne after count (later, last, others)) :
      Entries readOne c (count + 1) (later.map (value :: ·), last, notes ++ others)

section Loop

variable {readOne : Cursor → Parsed} {c : Cursor} {count : Nat}
  {outcome : Except CommandError (List Value) × Cursor × List Note}

/-- A loop that ends is run to its end, if more turns are counted for it than it reads entries. -/
theorem Entries.readEntries_eq (h : Entries readOne c count outcome) {fuel : Nat}
    (hfuel : count < fuel) : readEntries readOne fuel c = outcome := by
  induction h generalizing fuel with
  | finished hend =>
    obtain ⟨fuel, rfl⟩ := Nat.exists_eq_succ_of_ne_zero (Nat.ne_zero_of_lt hfuel)
    rw [readEntries]
    simp [hend]
  | rejected hopen hread =>
    obtain ⟨fuel, rfl⟩ := Nat.exists_eq_succ_of_ne_zero (Nat.ne_zero_of_lt hfuel)
    rw [readEntries]
    simp [hopen, hread]
  | touched hopen hread hglued =>
    obtain ⟨fuel, rfl⟩ := Nat.exists_eq_succ_of_ne_zero (Nat.ne_zero_of_lt hfuel)
    have htest := eq_true_of_ne_false (mt Cursor.separated_rest_iff.mpr hglued)
    rw [readEntries]
    simp [hopen, hread, htest]
  | more hopen hread hsep _ ih =>
    obtain ⟨fuel, rfl⟩ := Nat.exists_eq_succ_of_ne_zero (Nat.ne_zero_of_lt hfuel)
    have htest := Cursor.separated_rest_iff.mp hsep
    have hlater := ih (Nat.lt_of_succ_lt_succ hfuel)
    rw [readEntries]
    simp [hopen, hread, htest, hlater]

/-- A list that is read has as many items as entries were read. -/
theorem Entries.length_eq (h : Entries readOne c count outcome) {items : List Value}
    (hok : outcome.1 = .ok items) : items.length = count := by
  induction h generalizing items with
  | finished => cases hok; rfl
  | rejected => cases hok
  | touched => cases hok
  | @more _ _ _ _ _ _ _ later _ _ _ _ ih =>
    cases later with
    | error e => cases hok
    | ok others =>
      cases hok
      rw [List.length_cons, ih rfl]

/-- An entry that leads back to the blank in front of it keeps the loop going for ever. -/
theorem not_entries_of_back {value : Value} {notes : List Note} (hopen : c.skipBlanks.atEnd = false)
    (hread : readOne c.skipBlanks = ⟨.ok value, c, notes⟩) (hsep : Separated c.rest) :
    ¬ Entries readOne c count outcome := by
  intro h
  induction h with
  | finished hend => exact absurd (hend.symm.trans hopen) (by decide)
  | rejected _ hrejected => cases hrejected.symm.trans hread
  | touched _ htouched hglued =>
    cases htouched.symm.trans hread
    exact hglued hsep
  | more _ hmore _ _ ih =>
    cases hmore.symm.trans hread
    exact ih hopen hread hsep

/-! ## Entries that do not go back -/

/-- Where a text is separated, passing over its blanks passes over something, unless it is empty. -/
theorem length_trimLeft_le_pred {text : List Char} (h : Separated text) :
    (Text.trimLeft text).length ≤ text.length - 1 := by
  cases text with
  | nil => exact Nat.zero_le _
  | cons x rest =>
    have htrim : Text.trimLeft (x :: rest) = Text.trimLeft rest :=
      List.dropWhile_cons_of_pos (Text.separated_cons_iff.mp h)
    rw [htrim]
    exact Text.length_trimLeft_le rest

variable (hone : ∀ c : Cursor, c.Onward (readOne c).cursor)
include hone

theorem onward_of_read {after : Cursor} {result : Except CommandError Value} {notes : List Note}
    (hread : readOne c.skipBlanks = ⟨result, after, notes⟩) : c.skipBlanks.Onward after := by
  have hmove := hone c.skipBlanks
  rwa [hread] at hmove

/-- An entry behind which the loop goes on has taken a character. -/
theorem length_lt_of_separated {after : Cursor} {result : Except CommandError Value}
    {notes : List Note} (hopen : c.skipBlanks.atEnd = false)
    (hread : readOne c.skipBlanks = ⟨result, after, notes⟩) (hsep : Separated after.rest) :
    after.rest.length < c.skipBlanks.rest.length := by
  obtain ⟨taken, hrest, -⟩ := Cursor.onward_iff.mp (onward_of_read hone hread)
  exact length_lt_of_moved ⟨taken, hrest⟩ (Cursor.startsInk_skipBlanks hopen) hsep

/-- The loop comes to an end. -/
theorem exists_entries (c : Cursor) : ∃ count outcome, Entries readOne c count outcome := by
  -- on what is unread: a turn that does not end the loop leaves less
  induction hlength : c.rest.length using Nat.strong_induction_on generalizing c with
  | _ length ih =>
    subst hlength
    cases hopen : c.skipBlanks.atEnd with
    | true => exact ⟨0, _, .finished hopen⟩
    | false =>
      cases hread : readOne c.skipBlanks with
      | mk result after notes =>
        cases result with
        | error e => exact ⟨0, _, .rejected hopen hread⟩
        | ok value =>
          by_cases hsep : Separated after.rest
          · have hless := length_lt_of_separated hone hopen hread hsep
            have hskip : c.skipBlanks.rest.length ≤ c.rest.length := Text.length_trimLeft_le c.rest
            obtain ⟨count, outcome, hlater⟩ := ih _ (Nat.lt_of_lt_of_le hless hskip) after rfl
            exact ⟨count + 1, _, .more hopen hread hsep hlater⟩
          · exact ⟨1, _, .touched hopen hread hsep⟩

/-- The loop ends further on in the same source. -/
theorem Entries.onward (h : Entries readOne c count outcome) : c.Onward outcome.2.1 := by
  induction h with
  | finished => exact Cursor.onward_skipBlanks _
  | rejected _ hread => exact (Cursor.onward_skipBlanks _).trans (onward_of_read hone hread)
  | touched _ hread _ => exact (Cursor.onward_skipBlanks _).trans (onward_of_read hone hread)
  | more _ hread _ _ ih =>
    exact ((Cursor.onward_skipBlanks _).trans (onward_of_read hone hread)).trans ih

theorem Entries.count_le_skipBlanks (h : Entries readOne c count outcome) :
    2 * count ≤ c.skipBlanks.rest.length + 1 := by
  -- behind the first blanks: an entry takes a character, and so do the blanks in front of the next
  induction h with
  | finished => omega
  | rejected => omega
  | touched hopen =>
    have hpos := List.length_pos_of_ne_nil (Cursor.startsInk_skipBlanks hopen).ne_nil
    omega
  | @more c after _ _ _ _ _ _ hopen hread hsep _ ih =>
    have hless := length_lt_of_separated hone hopen hread hsep
    have hskip : after.skipBlanks.rest.length ≤ after.rest.length - 1 :=
      length_trimLeft_le_pred hsep
    omega

/-- An entry that is followed by another one takes two characters, its own and a blank. -/
theorem Entries.count_le (h : Entries readOne c count outcome) :
    2 * count ≤ c.rest.length + 1 := by
  have hcount := h.count_le_skipBlanks hone
  have hskip : c.skipBlanks.rest.length ≤ c.rest.length := Text.length_trimLeft_le c.rest
  omega

end Loop

/-! ## Types that do not go back -/

/-- Reading a value of the type keeps the source and does not go back, whatever comes of it. -/
def Forward (t : ValueType) : Prop :=
  ∀ (c : Cursor) (context : Context), c.Onward (t.parse c context).cursor

/-- Standard types do not go back. -/
theorem Standard.forward {t : ValueType} (h : t.Standard) : t.Forward := by
  intro c context
  obtain ⟨taken, left, hrest, hcursor⟩ := h.exists_moved c context
  rw [hcursor]
  exact Cursor.onward_iff.mpr ⟨taken, hrest, rfl⟩

/-- A list of a type is read by the loop over its entries, run to its end. -/
theorem Entries.parse_list {t : ValueType} {c : Cursor} {context : Context} {count : Nat}
    {outcome : Except CommandError (List Value) × Cursor × List Note}
    (hforward : t.Forward) (h : Entries (t.parse · context) c count outcome) :
    (list t).parse c context = ⟨outcome.1.map .list, outcome.2.1, outcome.2.2⟩ := by
  have hcount := h.count_le fun c => hforward c context
  simp only [parse]
  rw [h.readEntries_eq (by omega)]

/-- A list of a type that does not go back is such a type, too. -/
theorem Forward.list {t : ValueType} (h : t.Forward) : (list t).Forward := by
  intro c context
  obtain ⟨count, outcome, hentries⟩ := exists_entries (fun c => h c context) c
  rw [hentries.parse_list h]
  exact hentries.onward fun c => h c context

/-- Reading a value of the type comes to an end.  What might not is a loop over entries. -/
def Ends : ValueType → Prop
  | .list inner => inner.Ends ∧ ∀ (c : Cursor) (context : Context),
      ∃ count outcome, Entries (inner.parse · context) c count outcome
  | .ranged inner _ _ => inner.Ends
  | .validated inner _ _ => inner.Ends
  | _ => True

theorem Ends.list {t : ValueType} (h : t.Ends) (hforward : t.Forward) : (list t).Ends :=
  ⟨h, fun c context => exists_entries (fun c => hforward c context) c⟩

theorem BuiltIn.ends {t : ValueType} (h : t.BuiltIn) : t.Ends := by
  induction h with
  | list h ih => exact ih.list (Standard.builtIn h).forward
  | ranged _ _ _ ih => exact ih
  | _ => exact trivial

/-- Standard types come to an end. -/
theorem Standard.ends {t : ValueType} (h : t.Standard) : t.Ends := by
  induction h with
  | builtIn h => exact h.ends
  | list h ih => exact ih.list h.forward
  | ranged _ _ _ ih => exact ih
  | validated _ _ _ ih => exact ih

/-- What holds of reading a list of `t` at `c`. -/
structure ListEnds (t : ValueType) (context : Context) (c : Cursor) : Prop where
  /-- the loop over the entries has a last turn -/
  ends : ∃ count outcome, Entries (t.parse · context) c count outcome
  /-- the list is what the loop ends with -/
  parse_eq : ∀ {count outcome}, Entries (t.parse · context) c count outcome →
    (list t).parse c context = ⟨outcome.1.map .list, outcome.2.1, outcome.2.2⟩
  /-- at most half as many entries are read as characters are unread, rounded up -/
  count_le : ∀ {count outcome}, Entries (t.parse · context) c count outcome →
    2 * count ≤ c.rest.length + 1
  /-- a list that is read has an item for each entry -/
  length_eq : ∀ {count outcome}, Entries (t.parse · context) c count outcome →
    ∀ {items}, outcome.1 = .ok items → items.length = count
  /-- an entry that takes nothing is the last one: the list fails at it for want of a blank -/
  of_empty : ∀ {value notes}, c.skipBlanks.atEnd = false →
    t.parse c.skipBlanks context = ⟨.ok value, c.skipBlanks, notes⟩ →
    (list t).parse c context = ⟨.error (.malformed .missingBlank), c.skipBlanks, notes⟩

theorem Forward.listEnds {t : ValueType} (h : t.Forward) (context : Context) (c : Cursor) :
    t.ListEnds context c where
  ends := exists_entries (fun c => h c context) c
  parse_eq hentries := hentries.parse_list h
  count_le hentries := hentries.count_le fun c => h c context
  length_eq hentries _ hok := hentries.length_eq hok
  of_empty hopen hread :=
    (Entries.touched hopen hread (Cursor.startsInk_skipBlanks hopen).not_separated).parse_list h

/-- Reading a list of any type that keeps the source, does not go back and comes to an end itself
comes to an end, whatever the entries take, and reads at most as many entries as the unread
characters allow.  Every standard type is such a type, and so is the list again. -/
theorem list_parse_ends :
    (∀ t : ValueType, t.Standard → t.Forward ∧ t.Ends)
      ∧ ∀ t : ValueType, t.Forward → t.Ends →
          (list t).Ends ∧ (list t).Forward
            ∧ ∀ (context : Context) (c : Cursor), t.ListEnds context c :=
  ⟨fun _ h => ⟨h.forward, h.ends⟩, fun _ h hends => ⟨hends.list h, h.list, h.listEnds⟩⟩

/-- A type of a host whose values take nothing. -/
def nothing : ValueType := .host ⟨"nothing", Reader.characters 0, .usual, false, []⟩

/-- A context of trials of `discard <all>`. -/
def discardContext : Context :=
  .start ⟨⟨1⟩, "player"⟩ ⟨⟨0⟩, "discard <all>", .none⟩ "discard a b"

/-- Entries of nothing do not keep a list going: it fails at the first word. -/
theorem list_parse_ends_nothing :
    nothing.Forward ∧ nothing.Ends ∧ (list nothing).Ends
      ∧ (list nothing).parse (.ofText " a b".toList) discardContext
        = ⟨.error (.malformed .missingBlank), ⟨[' '], "a b".toList⟩, []⟩
      ∧ ValueType.int.Standard ∧ (list .int).Ends := by
  obtain ⟨hstandard, hlist⟩ := list_parse_ends
  have hnothing : nothing.Forward := fun c _ => Cursor.Onward.refl c
  obtain ⟨hends, -, hread⟩ := hlist nothing hnothing trivial
  have hempty : nothing.parse (Cursor.ofText " a b".toList).skipBlanks discardContext
      = ⟨.ok (.string ""), (Cursor.ofText " a b".toList).skipBlanks, []⟩ := rfl
  obtain ⟨hforward, hint⟩ := hstandard .int (.builtIn .int)
  exact ⟨hnothing, trivial, hends,
    (hread discardContext (.ofText " a b".toList)).of_empty rfl hempty, .builtIn .int,
    (hlist .int hforward hint).1⟩

end CommandGrammar.ValueType
