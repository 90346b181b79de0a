import CommandGrammar.Proofs.Reading.Local
import CommandGrammar.Proofs.Text.Seams
import CommandGrammar.Trial.Flags
import Mathlib.Tactic.DefEqTransformations

/-!
# Flags among other words

A line is a row of items with one space between any two: words, quoted texts, and groups, which
are words that name flags, with the values of those flags behind them.  The bare long mark may end
the row, and then an arbitrary text follows.

Scanning such a line takes out exactly the groups and the mark.  What is left are the words and
quoted texts in their order, and the trimmed text at the end; a flag has the last value that a
group gives it, and one that no group names has the value of its absence.  Where the groups stand
plays no part.
-/

set_option autoImplicit false

namespace CommandGrammar

variable {α : Type}

/-! ## Marks and roles -/

/-- The marks are not empty and hold neither blanks nor double quotes. -/
structure Settings.PlainMarks (settings : Settings) : Prop where
  long_ne_nil : settings.longMark.toList ≠ []
  long_ink : Text.AllInk settings.longMark.toList
  long_quote : '"' ∉ settings.longMark.toList
  short_ne_nil : settings.shortMark.toList ≠ []
  short_quote : '"' ∉ settings.shortMark.toList

namespace Settings

variable {settings : Settings} {word : List Char}

theorem afterMark?_eq_none_of_quote {mark : List Char} (hne : mark ≠ []) (hquote : '"' ∉ mark)
    (hword : word.head? = some '"') : afterMark? mark word = none := by
  unfold afterMark?
  cases mark with
  | nil => exact absurd rfl hne
  | cons m mark =>
    cases word with
    | nil => cases hword
    | cons x word =>
      cases hword
      have hm : m ≠ '"' := fun h => hquote (h ▸ List.mem_cons_self)
      simp [hm]

/-- A word that begins with a double quote begins a quoted text. -/
theorem PlainMarks.role_of_quote (h : settings.PlainMarks) (hword : word.head? = some '"') :
    settings.role word = .quoted := by
  have hmark : word ≠ settings.longMark.toList := by
    rintro rfl
    exact h.long_quote (List.mem_of_mem_head? hword)
  have hlong := afterMark?_eq_none_of_quote h.long_ne_nil h.long_quote hword
  have hshort := afterMark?_eq_none_of_quote h.short_ne_nil h.short_quote hword
  simp [role, longName?, cluster?, hmark, hlong, hshort, hword]

/-- A word that no other role is for is plain. -/
theorem role_eq_plain (hmark : word ≠ settings.longMark.toList)
    (hlong : settings.longName? word = none) (hshort : settings.cluster? word = none)
    (hquote : word.head? ≠ some '"') : settings.role word = .plain := by
  simp [role, hmark, hlong, hshort, hquote]

theorem role_longMark : settings.role settings.longMark.toList = .endMark := by
  simp [role]

/-- The empty word names no flag. -/
theorem role_nil (settings : Settings) :
    settings.role [] = .endMark ∨ settings.role [] = .plain := by
  unfold role
  split
  · exact Or.inl rfl
  · exact Or.inr (by simp [longName?, cluster?, afterMark?])

end Settings

/-! ## Items -/

/-- What a group gives to one of the flags that it names. -/
inductive Mention where
  | switch (f : Slot)
  | flag (f : Slot) (text : List Char) (value : Value)

namespace Mention

/-- The flag or switch that is named. -/
def slot : Mention → Slot
  | .switch f => f
  | .flag f _ _ => f

/-- What stands behind the name. -/
def text : Mention → List Char
  | .switch _ => []
  | .flag _ text _ => ' ' :: text

/-- What the flag or switch is bound to. -/
def binding : Mention → String × Value
  | .switch f => (f.name, .bool true)
  | .flag f _ value => (f.name, value)

/-- A switch has no text, and the text of a flag is read by its type, on its own, as the value. -/
def Reads (context : Context) : Mention → Prop
  | .switch f => f.isSwitch = true
  | .flag f text value =>
    f.isSwitch = false ∧ Text.StartsInk text ∧ f.type.ReadsWhole context text value

@[simp] theorem binding_fst (m : Mention) : m.binding.1 = m.slot.name := by cases m <;> rfl

end Mention

/-- A part of a row. -/
inductive Item where
  | word (text : List Char)
  | quoted (content : List Char)
  | group (key : List Char) (mentions : List Mention)

namespace Item

/-- How an item is written. -/
def text : Item → List Char
  | .word text => text
  | .quoted content => '"' :: Quoted.encode '"' content
  | .group key mentions => key ++ mentions.flatMap Mention.text

/-- The flags that an item names. -/
def mentions : Item → List Mention
  | .group _ mentions => mentions
  | _ => []

/-- An item as a chunk, which is cut out if it is a group. -/
def chunk (i : Item) : Text.Chunk :=
  match i with
  | .group _ _ => ⟨true, i.text⟩
  | _ => ⟨false, i.text⟩

end Item

@[simp] theorem Item.chunk_text (i : Item) : i.chunk.text = i.text := by cases i <;> rfl

/-- The flags that a word names by a long name or by shorthands. -/
def Command.Names (settings : Settings) (c : Command α) (word : List Char) (flags : List Slot) :
    Prop :=
  (∃ name f, settings.role word = .long name ∧ c.flagByLong? name = some f ∧ flags = [f])
    ∨ ∃ letters, settings.role word = .cluster letters
      ∧ letters.map c.flagByShort? = flags.map some

/-- An item in its place: a word names no flag and opens no quote, and a group names known flags
and has readable values. -/
def Item.Valid (settings : Settings) (c : Command α) (context : Context) : Item → Prop
  | .word text =>
    text ≠ [] ∧ Text.AllInk text ∧ text.head? ≠ some '"' ∧ text ≠ settings.longMark.toList
      ∧ settings.longName? text = none ∧ settings.cluster? text = none
  | .quoted _ => True
  | .group key mentions =>
    Text.AllInk key ∧ c.Names settings key (mentions.map Mention.slot)
      ∧ ∀ m ∈ mentions, m.Reads context

theorem Item.Valid.startsInk {settings : Settings} {c : Command α} {context : Context} {item : Item}
    (h : item.Valid settings c context) :
    Text.StartsInk item.text := by
  cases item with
  | word text => exact h.2.1.startsInk h.1
  | quoted content => exact Text.startsInk_cons_iff.mpr (by decide)
  | group key mentions =>
    obtain ⟨hink, hnames, _⟩ := h
    have hne : key ≠ [] := by
      rintro rfl
      have hnil := settings.role_nil
      rcases hnames with ⟨name, _, hrole, _⟩ | ⟨letters, hrole, _⟩ <;> simp [hrole] at hnil
    exact (hink.startsInk hne).append _

/-- The value of the last binding of a name. -/
def lastValue (bindings : List (String × Value)) (name : String) : Option Value :=
  bindings.reverse.lookup name

theorem lastValue_eq_none_iff (bindings : List (String × Value)) (name : String) :
    lastValue bindings name = none ↔ name ∉ bindings.map Prod.fst := by
  rw [lastValue, List.lookup_eq_none_iff]
  simp only [List.mem_reverse, List.mem_map, not_exists, not_and, bne_iff_ne, ne_eq]
  exact forall₂_congr fun _ _ => not_congr eq_comm

/-- Items in a row, and perhaps a text behind the bare long mark. -/
structure Interleaving where
  items : List Item
  tail : Option (List Char)

namespace Interleaving

/-- The end of the row. -/
def ending (settings : Settings) (i : Interleaving) : Option (List Char × List Char) :=
  i.tail.map fun tail => (settings.longMark.toList, tail)

/-- The chunks of the line. -/
def chunks (settings : Settings) (i : Interleaving) : List Text.Chunk :=
  Text.row (i.ending settings) (i.items.map Item.chunk)

/-- The line. -/
def line (settings : Settings) (i : Interleaving) : List Char := Text.wholeText (i.chunks settings)

/-- The words and quoted texts in their order, and the trimmed text at the end. -/
def words (settings : Settings) (i : Interleaving) : List (List Char) :=
  Text.keptWords (i.ending settings) (i.items.map Item.chunk)

/-- What groups bind, in order. -/
def bindings (i : Interleaving) : List (String × Value) :=
  (i.items.flatMap Item.mentions).map Mention.binding

/-- The last value that a group gives to a flag. -/
def given (i : Interleaving) (name : String) : Option Value := lastValue i.bindings name

/-- Every item is in its place, and the text at the end does not touch the mark. -/
structure Valid (settings : Settings) (c : Command α) (context : Context) (i : Interleaving) :
    Prop where
  items : ∀ item ∈ i.items, item.Valid settings c context
  tail : ∀ tail, i.tail = some tail → Text.Separated tail

end Interleaving

/-! ## One flag -/

namespace Context

/-- Binds names one after another. -/
def bindAll (context : Context) (bindings : List (String × Value)) : Context :=
  bindings.foldl (fun context b => context.bind b.1 b.2) context

@[simp] theorem bindAll_nil (context : Context) : context.bindAll [] = context := rfl

@[simp] theorem bindAll_cons (context : Context) (b : String × Value)
    (rest : List (String × Value)) :
    context.bindAll (b :: rest) = (context.bind b.1 b.2).bindAll rest := rfl

theorem bindAll_append (context : Context) (bindings others : List (String × Value)) :
    context.bindAll (bindings ++ others) = (context.bindAll bindings).bindAll others :=
  List.foldl_append

@[simp] theorem bindAll_actor (context : Context) (bindings : List (String × Value)) :
    (context.bindAll bindings).actor = context.actor := by
  induction bindings generalizing context with
  | nil => rfl
  | cons b rest ih => rw [bindAll_cons, ih, bind_actor]

/-- The last binding of a name counts. -/
theorem get?_bindAll (context : Context) (bindings : List (String × Value)) (name : String) :
    (context.bindAll bindings).arguments.get? name
      = (lastValue bindings name).or (context.arguments.get? name) := by
  unfold lastValue
  induction bindings generalizing context with
  | nil => rfl
  | cons b rest ih =>
    obtain ⟨n, v⟩ := b
    have hbind : (context.bind n v).arguments.get? name
        = if name = n then some v else context.arguments.get? name :=
      Arguments.get?_insert context.arguments n name v
    rw [bindAll_cons, ih, hbind, List.reverse_cons, List.lookup_append, Option.or_assoc]
    congr 1
    by_cases h : name = n
    · simp [h]
    · have hne : (name == n) = false := by simpa using h
      rw [if_neg h, List.lookup_cons, hne]
      rfl

end Context

namespace FlagScan

/-- The pass once it has read mentions and come to a place. -/
def State.give (s : State) (mentions : List Mention) (cursor : Cursor) : State :=
  { s with
    cursor := cursor
    context := s.context.bindAll (mentions.map Mention.binding)
    seen := s.seen ++ mentions.map fun m => m.slot.name }

/-- What is asked of a flag that a group may name. -/
structure Usable (actor : Actor) (f : Slot) : Prop where
  admits : f.admits actor = true
  builtIn : f.isSwitch = false → f.type.BuiltIn
  notGreedy : f.isSwitch = false → f.type.isGreedy = false

variable {settings : Settings} {c : Command α} {context : Context} {s : State}

/-- A flag that is mentioned is read and bound. -/
theorem readFlag_mention {m : Mention} (hm : m.Reads context)
    (husable : Usable s.context.actor m.slot) {front after : List Char}
    (hcursor : s.cursor = ⟨front, m.text ++ after⟩) (hafter : Text.Separated after) :
    readFlag c m.slot s = (.ok (), s.give [m] ⟨front ++ m.text, after⟩) := by
  obtain ⟨cursor, ctx, notes, cuts, seen⟩ := s
  have hadmits := husable.admits
  dsimp only at hcursor hadmits
  subst hcursor
  cases m with
  | switch f =>
    have hswitch : f.isSwitch = true := hm
    simp only [Mention.slot] at hadmits
    simp [readFlag, Mention.slot, Mention.text, hswitch, hadmits, State.give, State.resolve,
      Mention.binding]
  | flag f text value =>
    obtain ⟨hswitch, hink, hwhole⟩ := hm
    simp only [Mention.slot] at hadmits
    have hform : f.type.LocalForm := (husable.builtIn hswitch).localForm
    have hgreedy : f.type.isGreedy = false := husable.notGreedy hswitch
    have hskip : (Cursor.mk front (' ' :: (text ++ after))).skipBlanks
        = ⟨front ++ [' '], text ++ after⟩ :=
      Cursor.skipBlanks_append (by decide : Text.AllBlank [' '])
        (Text.trimLeft_of_startsInk (hink.append after))
    have hend : (Cursor.mk (front ++ [' ']) (text ++ after)).atEnd = false := by
      simp [Cursor.atEnd, hink.ne_nil]
    have hparse : f.parse ⟨front ++ [' '], text ++ after⟩ ctx
        = ⟨.ok value, ⟨front ++ [' '] ++ text, after⟩, []⟩ := by
      rw [← hform.parse_of_readsWhole hgreedy hafter hwhole _ ctx]
      simp [Slot.parse, hadmits, hend]
    have hblank : Text.startsBlank (' ' :: (text ++ after)) = true := by
      rw [Text.startsBlank]
      decide
    simp [readFlag, Mention.slot, Mention.text, hswitch, hskip, hparse, Cursor.atBlank, hblank,
      State.give, State.resolve, Mention.binding]

/-! ## One group -/

theorem State.give_nil {place : Cursor} (hcursor : s.cursor = place) : s.give [] place = s := by
  subst hcursor
  simp [State.give]

theorem State.give_give (mentions others : List Mention) (place last : Cursor) :
    (s.give mentions place).give others last = s.give (mentions ++ others) last := by
  simp [State.give, Context.bindAll_append]

/-- Behind a mention stands a blank, or nothing. -/
theorem separated_flatMap_mentions (mentions : List Mention) {after : List Char}
    (hafter : Text.Separated after) :
    Text.Separated (mentions.flatMap Mention.text ++ after) := by
  induction mentions with
  | nil => exact hafter
  | cons m rest ih =>
    cases m with
    | switch f => simpa [Mention.text] using ih
    | flag f text value =>
      have hspace : Text.AllBlank [' '] := by decide
      simpa [Mention.text] using hspace.separated_append (by simp)
        (text ++ (rest.flatMap Mention.text ++ after))

/-- A cluster of shorthands whose flags are mentioned is read. -/
theorem readCluster_mentions {letters : List Char} {mentions : List Mention}
    (hnames : letters.map c.flagByShort? = (mentions.map Mention.slot).map some)
    (hreads : ∀ m ∈ mentions, m.Reads context)
    (husable : ∀ m ∈ mentions, Usable s.context.actor m.slot) {front after : List Char}
    (hcursor : s.cursor = ⟨front, mentions.flatMap Mention.text ++ after⟩)
    (hafter : Text.Separated after) :
    readCluster c letters s
      = (.ok (), s.give mentions ⟨front ++ mentions.flatMap Mention.text, after⟩) := by
  induction letters generalizing mentions s front with
  | nil =>
    obtain rfl : mentions = [] := by simpa using hnames.symm
    rw [readCluster, State.give_nil (by simpa using hcursor)]
  | cons letter letters ih =>
    cases mentions with
    | nil => cases hnames
    | cons m rest =>
      simp only [List.map_cons, List.cons.injEq] at hnames
      obtain ⟨hletter, hletters⟩ := hnames
      obtain ⟨hm, hrest⟩ := List.forall_mem_cons.mp hreads
      obtain ⟨hmUsable, hrestUsable⟩ := List.forall_mem_cons.mp husable
      rw [List.flatMap_cons, List.append_assoc] at hcursor
      have hbehind := separated_flatMap_mentions rest hafter
      have hread := readFlag_mention (c := c) hm hmUsable hcursor hbehind
      have hlater := ih (s := s.give [m] ⟨front ++ m.text, rest.flatMap Mention.text ++ after⟩)
        hletters hrest (by simpa [State.give] using hrestUsable) rfl
      rw [readCluster, hletter]
      dsimp only
      rw [hread]
      dsimp only
      rw [hlater, State.give_give, List.append_assoc, List.flatMap_cons]
      rfl

/-- What a group stands for is read behind its word. -/
theorem turnAtWord_group {key : List Char} {mentions : List Mention}
    (hvalid : (Item.group key mentions).Valid settings c context)
    (husable : ∀ m ∈ mentions, Usable s.context.actor m.slot) {front after : List Char}
    (hcursor : s.cursor = ⟨front, (Item.group key mentions).text ++ after⟩)
    (hafter : Text.Separated after) :
    turnAtWord settings c s
      = (.ok false, (s.give mentions ⟨front ++ (Item.group key mentions).text, after⟩).cutFrom
          (byteLength front)) := by
  obtain ⟨hink, hnames, hreads⟩ := hvalid
  rw [Item.text, List.append_assoc] at hcursor
  have hbehind := separated_flatMap_mentions mentions hafter
  have hpeek : s.cursor.peekWord = key := by
    rw [hcursor, Cursor.peekWord_append hink hbehind]
  have hword : s.cursor.readWord.2 = ⟨front ++ key, mentions.flatMap Mention.text ++ after⟩ := by
    rw [hcursor, Cursor.readWord_append hink hbehind]
  have hposition : s.cursor.position = byteLength front := by
    rw [hcursor]
    rfl
  unfold turnAtWord
  rw [hpeek, hword, hposition, Item.text, ← List.append_assoc]
  rcases hnames with ⟨name, f, hrole, hlong, hslots⟩ | ⟨letters, hrole, hletters⟩
  · obtain ⟨m, rfl, hm⟩ := List.map_eq_singleton_iff.mp hslots
    have hread := readFlag_mention (c := c)
      (s := { s with cursor := ⟨front ++ key, m.text ++ after⟩ })
      (hreads m List.mem_cons_self) (husable m List.mem_cons_self) rfl hafter
    rw [hm] at hread
    simp only [hrole, readLong, hlong, List.flatMap_cons, List.flatMap_nil, List.append_nil, hread]
    rfl
  · have hread := readCluster_mentions
      (s := { s with cursor := ⟨front ++ key, mentions.flatMap Mention.text ++ after⟩ })
      hletters hreads husable rfl hafter
    simp only [hrole, hread]
    rfl

/-! ## One item -/

/-- The pass once it has come behind an item. -/
def State.pass (s : State) (item : Item) (front after : List Char) : State :=
  { s.give item.mentions ⟨front ++ item.text, after⟩ with
    cuts := s.cuts ++ Text.cutRanges (byteLength front) [item.chunk] }

/-- One turn of the pass takes one item. -/
theorem turnAtWord_item (hmarks : settings.PlainMarks) {item : Item}
    (hvalid : item.Valid settings c context)
    (husable : ∀ m ∈ item.mentions, Usable s.context.actor m.slot) {front after : List Char}
    (hcursor : s.cursor = ⟨front, item.text ++ after⟩) (hafter : Text.Separated after) :
    turnAtWord settings c s = (.ok false, s.pass item front after) := by
  cases item with
  | word text =>
    obtain ⟨hne, hink, hquote, hmark, hlong, hshort⟩ := hvalid
    have hpeek : s.cursor.peekWord = text := by
      rw [hcursor, Item.text, Cursor.peekWord_append hink hafter]
    have hword : s.cursor.readWord.2 = ⟨front ++ text, after⟩ := by
      rw [hcursor, Item.text, Cursor.readWord_append hink hafter]
    have hrole := Settings.role_eq_plain hmark hlong hshort hquote
    unfold turnAtWord
    simp [hpeek, hword, hrole, State.pass, State.give, Item.mentions, Item.chunk, Item.text,
      Text.cutRanges]
  | quoted content =>
    have hopen : s.cursor.peekWord.head? = some '"' := by
      rw [hcursor, Item.text]
      rfl
    have hpass : passQuoted s.cursor = ⟨front ++ '"' :: Quoted.encode '"' content, after⟩ := by
      rw [hcursor, Item.text, passQuoted, Cursor.readText_quoted_append]
    unfold turnAtWord
    simp [hmarks.role_of_quote hopen, hpass, State.pass, State.give, Item.mentions, Item.chunk,
      Item.text, Text.cutRanges]
  | group key mentions =>
    rw [turnAtWord_group hvalid husable hcursor hafter]
    simp [State.pass, State.cutFrom, State.give, Item.mentions, Item.chunk, Text.cutRanges,
      Cursor.position]

/-! ## One turn -/

theorem turn_of_atEnd (hend : s.cursor.skipBlanks.atEnd = true) :
    turn settings c s = (.ok true, { s with cursor := s.cursor.skipBlanks }) := by
  unfold turn
  dsimp only
  rw [if_pos hend]

/-- The pass ends behind the bare long mark, which is cut out. -/
theorem turn_longMark (hmarks : settings.PlainMarks) {front text : List Char}
    (hcursor : s.cursor.skipBlanks = ⟨front, settings.longMark.toList ++ text⟩)
    (hsep : Text.Separated text) :
    turn settings c s
      = (.ok true, { s with
          cursor := ⟨front ++ settings.longMark.toList, text⟩
          cuts := s.cuts
            ++ [⟨byteLength front, byteLength (front ++ settings.longMark.toList)⟩] }) := by
  have hend : (Cursor.mk front (settings.longMark.toList ++ text)).atEnd = false := by
    simp [Cursor.atEnd, hmarks.long_ne_nil]
  unfold turn turnAtWord
  simp only [hcursor, hend, Bool.false_eq_true, if_false,
    Cursor.peekWord_append hmarks.long_ink hsep, Settings.role_longMark,
    Cursor.readWord_append hmarks.long_ink hsep]
  rfl

/-- A turn passes over the blanks in front of an item and over the item. -/
theorem turn_item (hmarks : settings.PlainMarks) {item : Item}
    (hvalid : item.Valid settings c context)
    (husable : ∀ m ∈ item.mentions, Usable s.context.actor m.slot) {front after : List Char}
    (hcursor : s.cursor.skipBlanks = ⟨front, item.text ++ after⟩) (hafter : Text.Separated after) :
    turn settings c s
      = (.ok false, State.pass { s with cursor := s.cursor.skipBlanks } item front after) := by
  have hend : s.cursor.skipBlanks.atEnd = false := by
    rw [hcursor]
    simp [Cursor.atEnd, hvalid.startsInk.ne_nil]
  unfold turn
  simp only [hend, Bool.false_eq_true, if_false]
  exact turnAtWord_item (s := { s with cursor := s.cursor.skipBlanks }) hmarks hvalid husable
    hcursor hafter

/-! ## The whole pass -/

/-- A row begins with ink, unless it is empty. -/
theorem trimLeft_wholeText_row (hmarks : settings.PlainMarks) {items : List Item}
    (hvalid : ∀ item ∈ items, item.Valid settings c context) (tail : Option (List Char)) :
    Text.trimLeft (Text.wholeText (Text.row (tail.map (settings.longMark.toList, ·))
        (items.map Item.chunk)))
      = Text.wholeText (Text.row (tail.map (settings.longMark.toList, ·))
          (items.map Item.chunk)) := by
  cases items with
  | nil =>
    cases tail with
    | none => rfl
    | some text =>
      refine Text.trimLeft_of_startsInk ?_
      simpa [Text.row, Text.endChunks] using
        (hmarks.long_ink.startsInk hmarks.long_ne_nil).append text
  | cons item rest =>
    refine Text.trimLeft_of_startsInk ?_
    simpa [Text.row] using (hvalid item List.mem_cons_self).startsInk.append _

/-- The pass over a row takes the items one after another and stops at the end of the row. -/
theorem scan_items (hmarks : settings.PlainMarks) {items : List Item} {tail : Option (List Char)}
    (hvalid : ∀ item ∈ items, item.Valid settings c context)
    (htail : ∀ text, tail = some text → Text.Separated text)
    (husable : ∀ item ∈ items, ∀ m ∈ item.mentions, Usable s.context.actor m.slot) (turns : Nat)
    {front : List Char}
    (hcursor : s.cursor.skipBlanks
      = ⟨front, Text.wholeText (Text.row (tail.map (settings.longMark.toList, ·))
          (items.map Item.chunk))⟩) :
    ∃ last, last.source = s.cursor.source ∧ scan settings c (items.length + 1 + turns) s
      = some (.ok (),
        { cursor := last
          context := s.context.bindAll ((items.flatMap Item.mentions).map Mention.binding)
          notes := s.notes
          cuts := s.cuts ++ Text.cutRanges (byteLength front)
            (Text.row (tail.map (settings.longMark.toList, ·)) (items.map Item.chunk))
          seen := s.seen ++ (items.flatMap Item.mentions).map fun m => m.slot.name }) := by
  induction items generalizing s front with
  | nil =>
    rw [List.length_nil, Nat.zero_add, Nat.add_comm, scan]
    simp only [List.map_nil, Text.row] at hcursor ⊢
    cases tail with
    | none =>
      have hend : s.cursor.skipBlanks.atEnd = true := by
        rw [hcursor]
        rfl
      refine ⟨s.cursor.skipBlanks, Cursor.source_skipBlanks _, ?_⟩
      rw [turn_of_atEnd hend]
      simp [Text.endChunks, Text.cutRanges]
    | some text =>
      simp only [Option.map_some, Text.endChunks, Text.wholeText_cons, Text.wholeText_nil,
        List.append_nil] at hcursor
      refine ⟨⟨front ++ settings.longMark.toList, text⟩, ?_, ?_⟩
      · rw [← Cursor.source_skipBlanks s.cursor, hcursor]
        simp [Cursor.source]
      · rw [turn_longMark hmarks hcursor (htail text rfl)]
        simp [Text.endChunks, Text.cutRanges]
  | cons item rest ih =>
    obtain ⟨hitem, hrest⟩ := List.forall_mem_cons.mp hvalid
    obtain ⟨hitemUsable, hrestUsable⟩ := List.forall_mem_cons.mp husable
    have hinked := trimLeft_wholeText_row hmarks hrest tail
    simp only [List.map_cons, Text.row, Text.wholeText_cons, Item.chunk_text] at hcursor ⊢
    generalize Text.row (tail.map (settings.longMark.toList, ·)) (rest.map Item.chunk) = others
      at hcursor hinked ih ⊢
    obtain ⟨gap, hgap, hwhole, hafter, hcuts⟩ := Text.exists_gap_behindSpace others
    have hturn := turn_item hmarks hitem hitemUsable hcursor hafter
    obtain ⟨last, hsource, hscan⟩ := ih
      (s := State.pass { s with cursor := s.cursor.skipBlanks } item front
        (Text.wholeText (Text.behindSpace others))) hrest
      (by simpa [State.pass, State.give] using hrestUsable)
      (by
        simp only [State.pass, State.give, hwhole]
        exact Cursor.skipBlanks_append hgap hinked)
    refine ⟨last, ?_, ?_⟩
    · rw [hsource, ← Cursor.source_skipBlanks s.cursor, hcursor]
      simp [State.pass, State.give, Cursor.source]
    · have hturns : (item :: rest).length + 1 + turns = (rest.length + 1 + turns) + 1 := by
        simp only [List.length_cons]
        omega
      rw [hturns, scan, hturn]
      dsimp only
      rw [hscan]
      have hcut := Text.cutRanges_append (byteLength front) [item.chunk] (Text.behindSpace others)
      simp only [List.cons_append, List.nil_append, Text.wholeText_cons, Item.chunk_text,
        Text.wholeText_nil, List.append_nil, hcuts] at hcut
      simp [State.pass, State.give, Context.bindAll_append, hcut, Nat.add_assoc]

/-! ## Flags that no group names -/

/-- The values of the flags that are not given, in the order of their nodes; the first that has
none is the error. -/
def absentValues (c : Command α) (context : Context) (given : String → Option Value) :
    List Slot → Except CommandError (List (String × Value))
  | [] => .ok []
  | f :: rest =>
    if (given f.name).isSome then absentValues c context given rest
    else
      match (f.absentValue context).1 with
      | .error e => .error (e.locate (c.flagSite f []))
      | .ok value =>
        match absentValues c context given rest with
        | .error e => .error e
        | .ok others => .ok ((f.name, value) :: others)

/-- The value of an absent flag depends on nothing that was read before, and leaves no note. -/
theorem absentValue_eq {actor : Actor} {f : Slot} (h : Usable actor f) (context other : Context) :
    f.absentValue other = ((f.absentValue context).1, []) := by
  unfold Slot.absentValue
  cases hswitch : f.isSwitch with
  | true => rfl
  | false =>
    have hform := (h.builtIn hswitch).localForm
    simp only [Bool.false_eq_true, if_false]
    cases f.parameter.defaultText with
    | none => cases f.isOptional <;> rfl
    | some text =>
      have hread := hform.parse_eq_behind other (.ofText text.toList) context
      have hnotes := hform.notes_parse (.ofText text.toList) other
      simp only [hnotes, Prod.mk.injEq, and_true]
      rw [hread]
      rfl

/-- Resolving absent flags binds their values, or ends with the error of the first that has
none. -/
theorem resolveAbsent_eq (context : Context) {actor : Actor} {given : String → Option Value}
    {flags : List Slot} (husable : ∀ f ∈ flags, Usable actor f)
    (hseen : ∀ name, (given name).isSome = true ↔ name ∈ s.seen) :
    match absentValues c context given flags with
    | .error e => ∃ after, resolveAbsent c flags s = (.error e, { s with context := after })
    | .ok absent =>
      resolveAbsent c flags s = (.ok (), { s with context := s.context.bindAll absent }) := by
  induction flags generalizing s with
  | nil => rfl
  | cons f rest ih =>
    obtain ⟨hf, hrest⟩ := List.forall_mem_cons.mp husable
    by_cases hgiven : (given f.name).isSome = true
    · simp only [absentValues, resolveAbsent, if_pos hgiven, if_pos ((hseen f.name).mp hgiven)]
      exact ih hrest hseen
    · have hnot : f.name ∉ s.seen := mt (hseen f.name).mpr hgiven
      simp only [absentValues, resolveAbsent, if_neg hgiven, if_neg hnot,
        absentValue_eq hf context s.context, List.append_nil]
      cases (f.absentValue context).1 with
      | error e => exact ⟨s.context, rfl⟩
      | ok value =>
        have hlater := ih (s := { s with context := s.context.bind f.name value }) hrest hseen
        dsimp only at hlater ⊢
        cases hvalues : absentValues c context given rest with
        | error e =>
          rw [hvalues] at hlater
          exact hlater
        | ok others =>
          rw [hvalues] at hlater
          exact hlater

/-- No flag that is given counts as absent. -/
theorem lastValue_absentValues {given : String → Option Value} {flags : List Slot}
    {absent : List (String × Value)} (h : absentValues c context given flags = .ok absent)
    {name : String} (hgiven : (given name).isSome = true) : lastValue absent name = none := by
  rw [lastValue_eq_none_iff]
  induction flags generalizing absent with
  | nil =>
    cases h
    simp
  | cons f rest ih =>
    rw [absentValues] at h
    split at h
    · exact ih h
    · next hnot =>
      split at h
      · cases h
      · split at h
        · cases h
        · next others hothers =>
          cases h
          rw [List.map_cons, List.mem_cons, not_or]
          refine ⟨?_, ih hothers⟩
          rintro rfl
          exact hnot hgiven

/-! ## Extraction -/

/-- An outcome is the one that words, given flags and absent flags determine. -/
def Outcome.Agrees (o : Outcome) (c : Command α) (context : Context) (words : List (List Char))
    (given : String → Option Value) : Prop :=
  o.notes = []
    ∧ match absentValues c context given c.flags with
      | .error e => o.result = .error e
      | .ok absent =>
        o.result = .ok (.ofText (Text.joinWith [' '] words))
          ∧ ∀ name, o.context.arguments.get? name = (given name).or (lastValue absent name)

/-- A row has at least as many characters as items, so the turns of the pass suffice. -/
theorem length_le_length_wholeText_row {items : List Item}
    (hvalid : ∀ item ∈ items, item.Valid settings c context)
    (ending : Option (List Char × List Char)) :
    items.length ≤ (Text.wholeText (Text.row ending (items.map Item.chunk))).length := by
  induction items with
  | nil => exact Nat.zero_le _
  | cons item rest ih =>
    obtain ⟨hitem, hrest⟩ := List.forall_mem_cons.mp hvalid
    have hlater := ih hrest
    have hpos := List.length_pos_iff.mpr hitem.startsInk.ne_nil
    obtain ⟨gap, _, hwhole, _⟩ :=
      Text.exists_gap_behindSpace (Text.row ending (rest.map Item.chunk))
    simp only [List.map_cons, Text.row, Text.wholeText_cons, Item.chunk_text, hwhole,
      List.length_append, List.length_cons]
    omega

theorem lt_turnLimit (c : Command α) (input : Cursor) :
    input.rest.length + 1 < turnLimit c input := by
  unfold turnLimit
  have hsquare : input.rest.length + defaultSize c + 2
      ≤ Nat.pow (input.rest.length + defaultSize c + 2) 2 := Nat.le_self_pow (by decide) _
  omega

/-- The words of a row are kept as they are, and the groups and the mark are cut out. -/
theorem withoutRanges_line (hmarks : settings.PlainMarks) {i : Interleaving}
    (hi : i.Valid settings c context) :
    Text.withoutRanges (i.line settings) (Text.cutRanges 0 (i.chunks settings))
      = Text.joinWith [' '] (i.words settings) := by
  refine Text.withoutRanges_row ?_ ?_ ?_
  · intro chunk hchunk hkept
    obtain ⟨item, hitem, rfl⟩ := List.mem_map.mp hchunk
    have hvalid := hi.items item hitem
    cases item with
    | word text => exact hvalid.2.1.inked hvalid.1
    | quoted content =>
      obtain ⟨front, hfront⟩ := Quoted.exists_encode_eq_concat '"' content
      have hquote : Text.isInk '"' = true := by decide
      refine ⟨Text.startsInk_cons_iff.mpr hquote, ?_⟩
      rw [Item.chunk_text, Item.text, hfront, List.reverse_cons, List.reverse_append]
      exact Text.startsInk_cons_iff.mpr hquote
    | group key mentions => cases hkept
  · intro chunk hchunk _
    obtain ⟨item, hitem, rfl⟩ := List.mem_map.mp hchunk
    rw [Item.chunk_text]
    exact (hi.items item hitem).startsInk.ne_nil
  · intro mark tail hending
    obtain ⟨text, _, heq⟩ := Option.map_eq_some_iff.mp hending
    cases heq
    exact hmarks.long_ne_nil

/-- Every flag that a valid group names is a flag of the command. -/
theorem mem_flags_of_mem_mentions {item : Item} (hitem : item.Valid settings c context)
    {m : Mention} (hm : m ∈ item.mentions) : m.slot ∈ c.flags := by
  cases item with
  | word text => cases hm
  | quoted content => cases hm
  | group key mentions =>
    have hslot : m.slot ∈ mentions.map Mention.slot := List.mem_map_of_mem hm
    rcases hitem.2.1 with ⟨name, f, _, hlong, hslots⟩ | ⟨letters, _, hletters⟩
    · rw [hslots, List.mem_singleton] at hslot
      rw [hslot]
      exact List.mem_of_find?_eq_some hlong
    · obtain ⟨letter, _, hletter⟩ :=
        List.mem_map.mp (hletters ▸ List.mem_map_of_mem hslot : some m.slot ∈ letters.map _)
      exact List.mem_of_find?_eq_some hletter

/-- The pass over a valid line comes to its end within the limit. -/
theorem scan_line (hmarks : settings.PlainMarks) {i : Interleaving}
    (hi : i.Valid settings c context) {other : Context}
    (husable : ∀ f ∈ c.flags, Usable other.actor f) :
    ∃ last, last.source = i.line settings
      ∧ scan settings c (turnLimit c (.ofText (i.line settings)))
          ⟨.ofText (i.line settings), other, [], [], []⟩
        = some (.ok (), ⟨last, other.bindAll i.bindings, [],
            Text.cutRanges 0 (i.chunks settings), i.bindings.map Prod.fst⟩) := by
  have hlimit : i.items.length + 1 ≤ turnLimit c (.ofText (i.line settings)) := by
    have hlength : i.items.length ≤ (i.line settings).length :=
      length_le_length_wholeText_row hi.items (i.ending settings)
    have hturns : (i.line settings).length + 1 < turnLimit c (.ofText (i.line settings)) :=
      lt_turnLimit c (.ofText (i.line settings))
    omega
  -- nothing but the bound is needed of the limit, which is a large number
  generalize turnLimit c (.ofText (i.line settings)) = limit at hlimit ⊢
  obtain ⟨turns, rfl⟩ := Nat.exists_eq_add_of_le hlimit
  have hstart : (Cursor.ofText (i.line settings)).skipBlanks = ⟨[], i.line settings⟩ :=
    @Cursor.skipBlanks_append [] [] _ Text.allBlank_nil
      (trimLeft_wholeText_row hmarks hi.items i.tail)
  obtain ⟨last, hsource, hscan⟩ := scan_items
    (s := ⟨.ofText (i.line settings), other, [], [], []⟩) hmarks hi.items hi.tail
    (fun item hitem m hm => husable m.slot (mem_flags_of_mem_mentions (hi.items item hitem) hm))
    turns hstart
  refine ⟨last, hsource, hscan.trans ?_⟩
  have hnames : i.bindings.map Prod.fst
      = (i.items.flatMap Item.mentions).map fun m => m.slot.name := by
    simp [Interleaving.bindings]
  rw [hnames]
  rfl

/-- The outcome once absent flags have been resolved. -/
def Outcome.ofStep : Step Unit → Outcome
  | (.error e, s) => ⟨.error e, s.context, s.notes⟩
  | (.ok (), s) =>
    ⟨.ok (.ofText (Text.withoutRanges s.cursor.source s.cuts)), s.context, s.notes⟩

/-- Taking flags out is a pass and then resolving what is absent. -/
theorem extract_eq (settings : Settings) (c : Command α) (input : Cursor) (other : Context) :
    extract settings c input other
      = match scan settings c (turnLimit c input) ⟨input, other, [], [], []⟩ with
        | none => none
        | some (.error e, after) => some ⟨.error e, after.context, after.notes⟩
        | some (.ok (), after) => some (.ofStep (resolveAbsent c c.flags after)) := by
  -- the function is replaced before it is applied, so that nothing counts the turns
  have hfun : @extract α = @extract α := rfl
  conv at hfun => rhs; delta extract
  rw [hfun]
  beta_reduce
  generalize turnLimit c input = limit
  cases scan settings c limit ⟨input, other, [], [], []⟩ with
  | none => rfl
  | some step =>
    obtain ⟨result, after⟩ := step
    cases result with
    | error e => rfl
    | ok _ =>
      dsimp only
      cases resolveAbsent c c.flags after with
      | mk result last => cases result <;> rfl

/-- Behind the pass, only the absent flags are left to resolve. -/
theorem extract_of_scan {input : Cursor} {other : Context} {after : State}
    (h : scan settings c (turnLimit c input) ⟨input, other, [], [], []⟩ = some (.ok (), after)) :
    extract settings c input other = some (.ofStep (resolveAbsent c c.flags after)) := by
  rw [extract_eq, h]

/-- Taking flags out of a valid line gives what its words and its flags determine. -/
theorem extract_line (hmarks : settings.PlainMarks) {i : Interleaving}
    (hi : i.Valid settings c context) {other : Context}
    (husable : ∀ f ∈ c.flags, Usable other.actor f) (hempty : other.arguments = .empty) :
    ∃ o, extract settings c (.ofText (i.line settings)) other = some o
      ∧ o.Agrees c context (i.words settings) i.given := by
  obtain ⟨last, hsource, hscan⟩ := scan_line hmarks hi husable
  have hseen (name : String) :
      (i.given name).isSome = true ↔ name ∈ i.bindings.map Prod.fst := by
    have hnone := lastValue_eq_none_iff i.bindings name
    rw [Option.isSome_iff_ne_none, ne_eq, Interleaving.given, hnone, Classical.not_not]
  have habsent := resolveAbsent_eq (c := c) context
    (s := ⟨last, other.bindAll i.bindings, [], Text.cutRanges 0 (i.chunks settings),
      i.bindings.map Prod.fst⟩) husable hseen
  rw [extract_of_scan hscan]
  cases hvalues : absentValues c context i.given c.flags with
  | error e =>
    rw [hvalues] at habsent
    obtain ⟨after, hafter⟩ := habsent
    rw [hafter]
    refine ⟨_, rfl, rfl, ?_⟩
    rw [hvalues]
    rfl
  | ok absent =>
    rw [hvalues] at habsent
    rw [habsent]
    refine ⟨_, rfl, rfl, ?_⟩
    rw [hvalues]
    refine ⟨?_, ?_⟩
    · simp only [Outcome.ofStep]
      rw [hsource, withoutRanges_line hmarks hi]
    · -- no flag is both given and absent, so the order of the two does not matter
      intro name
      have hget : ((other.bindAll i.bindings).bindAll absent).arguments.get? name
          = (lastValue absent name).or (i.given name) := by
        rw [Context.get?_bindAll, Context.get?_bindAll, hempty, Arguments.get?_empty,
          Option.or_none]
        rfl
      refine hget.trans ?_
      cases hgiven : i.given name with
      | none => simp
      | some value =>
        rw [lastValue_absentValues hvalues (by rw [hgiven]; rfl)]
        rfl

/-- Taking flags out of a line leaves the words in their order and gives each flag its last value,
wherever the groups stand: two lines with the same words and the same last values have outcomes
that cannot be told apart. -/
theorem extract_interleaving (hmarks : settings.PlainMarks) {i : Interleaving}
    (hi : i.Valid settings c context) {other : Context}
    (husable : ∀ f ∈ c.flags, Usable other.actor f) (hempty : other.arguments = .empty) :
    ∃ o, extract settings c (.ofText (i.line settings)) other = some o
      ∧ o.Agrees c context (i.words settings) i.given
      ∧ ∀ (j : Interleaving) (another : Context), j.Valid settings c context →
        another.actor = other.actor → another.arguments = .empty →
        j.words settings = i.words settings → j.given = i.given →
        ∃ o', extract settings c (.ofText (j.line settings)) another = some o'
          ∧ o'.result = o.result
          ∧ ((∃ rest, o.result = .ok rest) →
            ∀ name, o'.context.arguments.get? name = o.context.arguments.get? name) := by
  obtain ⟨o, hextract, hagrees⟩ := extract_line hmarks hi husable hempty
  refine ⟨o, hextract, hagrees, ?_⟩
  intro j another hj hactor hnone hwords hgiven
  obtain ⟨o', hextract', hagrees'⟩ := extract_line hmarks hj (hactor ▸ husable) hnone
  rw [hwords, hgiven] at hagrees'
  refine ⟨o', hextract', ?_⟩
  have hfirst := hagrees.2
  have hsecond := hagrees'.2
  cases hvalues : absentValues c context i.given c.flags with
  | error e =>
    rw [hvalues] at hfirst hsecond
    refine ⟨hsecond.trans hfirst.symm, ?_⟩
    rintro ⟨rest, hrest⟩
    rw [hfirst] at hrest
    cases hrest
  | ok absent =>
    rw [hvalues] at hfirst hsecond
    exact ⟨hsecond.1.trans hfirst.1.symm,
      fun _ name => (hsecond.2 name).trans (hfirst.2 name).symm⟩

/-- The flag `days` of `ban <target> [--days <days>] [--silent]`. -/
def days : Slot :=
  .ofParameter (.asFlag (.optional (.required "days" .int)) .byParameter) .int

/-- The switch `silent`. -/
def silent : Slot := .ofParameter (.asSwitch (.required "silent" .bool) .byParameter) .bool

/-- `ban <target> [--days <days>] [--silent]`. -/
def ban : Command Unit :=
  ⟨⟨0⟩, [⟨.word "ban", false, false⟩,
      ⟨.slot (.ofParameter (.required "target" .string) .string), false, false⟩,
      ⟨.slot days, false, true⟩, ⟨.slot silent, true, true⟩],
    .none, ⟨(), []⟩⟩

/-- The line `ban --days 7 "b b" -s -- x`. -/
def banLine : Interleaving :=
  ⟨[.word "ban".toList, .group "--days".toList [.flag days ['7'] (.int 7)], .quoted "b b".toList,
    .group "-s".toList [.switch silent]], some " x".toList⟩

theorem plainMarks_standard : Settings.standard.PlainMarks := by
  constructor <;> decide

theorem valid_banLine (context : Context) : banLine.Valid .standard ban context := by
  constructor
  · intro item hitem
    simp only [banLine, List.mem_cons, List.not_mem_nil, or_false] at hitem
    rcases hitem with rfl | rfl | rfl | rfl
    · exact ⟨by decide, by decide, by decide, by decide, by decide, by decide⟩
    · refine ⟨by decide, Or.inl ⟨"days".toList, days, by decide, rfl, rfl⟩, ?_⟩
      rw [List.forall_mem_singleton]
      exact ⟨rfl, Text.startsInk_cons_iff.mpr (by decide), rfl, rfl⟩
    · trivial
    · refine ⟨by decide, Or.inr ⟨['s'], by decide, rfl⟩, ?_⟩
      rw [List.forall_mem_singleton]
      exact rfl
  · rintro tail ⟨rfl⟩
    decide

theorem extract_banLine :
    ∃ o, extract .standard ban (.ofText "ban --days 7 \"b b\" -s -- x".toList)
        (.start default ban.info "") = some o
      ∧ o.result = .ok (.ofText "ban \"b b\" x".toList)
      ∧ o.context.arguments.get? "days" = some (.int 7)
      ∧ o.context.arguments.get? "silent" = some (.bool true) := by
  have husable : ∀ f ∈ ban.flags, Usable default f := by
    intro f hf
    have hflags : ban.flags = [days, silent] := rfl
    simp only [hflags, List.mem_cons, List.not_mem_nil, or_false] at hf
    rcases hf with rfl | rfl
    · exact ⟨rfl, fun _ => .int, fun _ => rfl⟩
    · exact ⟨rfl, fun _ => .bool, fun _ => rfl⟩
  have hempty : (Context.start default ban.info "").arguments = .empty := rfl
  have hline : banLine.line .standard = "ban --days 7 \"b b\" -s -- x".toList := by decide
  have hwords : Text.joinWith [' '] (banLine.words .standard) = "ban \"b b\" x".toList := by decide
  obtain ⟨o, hextract, hagrees, _⟩ := extract_interleaving plainMarks_standard
    (valid_banLine (.start default ban.info "")) husable hempty
  rw [hline] at hextract
  obtain ⟨_, hresult, hget⟩ := hagrees
  rw [hwords] at hresult
  exact ⟨o, hextract, hresult, (hget "days").trans rfl, (hget "silent").trans rfl⟩

end FlagScan

end CommandGrammar
