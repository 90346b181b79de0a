import CommandGrammar.Proofs.Completion.Lockstep
import CommandGrammar.Proofs.Reading.Heads

/-!
# The role of the last word

A completion is about the last word of a line.  What that word is to a trial is decided by the pass
over the flags, which has gone over the head before.  The walk of the completion goes over the head
too, and keeps in step with the pass: both read each word from the same text, as long as the pass
does not fail and every flag has its values in the head.

So the last word has one of four fates: the pass fails in the head, or a bare mark there ends it, or
a flag there lacks a value, or the pass comes to the last word and reads it by its role.  The
completion tells the second from the others, but it offers in all four: `note_completed_as_item`.
-/

set_option autoImplicit false

namespace CommandGrammar

variable {α : Type}

/-- A plain word begins with no quote. -/
theorem Settings.head?_ne_of_role_eq_plain {settings : Settings} {word : List Char}
    (h : settings.role word = .plain) : word.head? ≠ some '"' := by
  unfold role at h
  split at h
  · cases h
  · split at h
    · cases h
    · split at h
      · cases h
      · split at h
        · cases h
        · next hquote => exact hquote

/-! ## Passes -/

namespace FlagScan

variable {settings : Settings} {c : Command α} {s s' : State}

/-- A pass that stands at `s` comes to stand at `s'`. -/
inductive Passes (settings : Settings) (c : Command α) : State → State → Prop where
  | refl (s : State) : Passes settings c s s
  | step {s next s' : State} (hturn : turn settings c s = (.ok false, next))
      (hrest : Passes settings c next s') : Passes settings c s s'

/-- A pass goes on from where it comes to stand. -/
theorem Passes.scan_eq (h : Passes settings c s s') :
    ∃ taken, ∀ turns, scan settings c (taken + turns) s = scan settings c turns s' := by
  induction h with
  | refl s => exact ⟨0, fun turns => by rw [Nat.zero_add]⟩
  | step hturn _ ih =>
    obtain ⟨taken, hscan⟩ := ih
    refine ⟨taken + 1, fun turns => ?_⟩
    rw [Nat.add_right_comm, scan, hturn]
    exact hscan turns

/-- Reading a flag, behind which there is text for the value. -/
theorem readFlag_of_open {f : Slot} (hopen : f.isSwitch = false → s.cursor.skipBlanks.atEnd = false)
    (h : readFlag c f s = (.ok (), s')) :
    (f.isSwitch = true ∧ s'.cursor = s.cursor)
      ∨ (f.isSwitch = false ∧ ∃ value,
          (f.type.parse s.cursor.skipBlanks s.context).result = .ok value
          ∧ s'.cursor = (f.type.parse s.cursor.skipBlanks s.context).cursor) := by
  unfold readFlag at h
  dsimp only at h
  split at h
  · next hswitch =>
    split at h
    · cases h
      exact .inl ⟨hswitch, rfl⟩
    · cases h
  · next hswitch =>
    have hflag : f.isSwitch = false := by simpa using hswitch
    split at h
    · cases h
    · split at h
      · next value hparse =>
        cases h
        have htyped := Slot.parse_eq_of_not_atEnd (hopen hflag) hparse
        rw [htyped] at hparse
        exact .inr ⟨hflag, value, hparse, congrArg Parsed.cursor htyped⟩
      · cases h

end FlagScan

namespace Completion

open FlagScan (passQuoted)
open Text

variable {settings : Settings} {c : Command α} {actor : Actor} {text : List Char}

/-! ## Heads -/

/-- What stands between quotes in a head is read alike whatever follows, by a slot as by whoever
passes over it.  A head without quotes is, and so is one that is followed by a word without quotes,
where slots keep to quotes and no word of the grammar begins with one. -/
def QuotesAgree (c : Command α) (head text : List Char) : Prop :=
  '"' ∉ head
    ∨ ('"' ∉ text
      ∧ (∀ s ∈ c.slots, s.isSwitch = false → s.isGreedy = false → s.type.KeepsQuotes)
      ∧ ∀ n ∈ c.positional, ∀ literal, n.segment = .word literal → literal.toList.head? ≠ some '"')

/-- A cursor in a head that `text` follows. -/
structure InHead (c : Command α) (text : List Char) (cursor : Cursor) : Prop where
  closed : Closed cursor.rest
  quotes : QuotesAgree c cursor.rest text

theorem InHead.of_rest {cursor after : Cursor} (h : InHead c text cursor)
    (hrest : ∃ taken, cursor.rest = taken ++ after.rest) : InHead c text after := by
  obtain ⟨taken, htaken⟩ := hrest
  refine ⟨(htaken ▸ h.closed).of_append, h.quotes.imp_left fun hnone hquote => hnone ?_⟩
  rw [htaken]
  exact List.mem_append_right _ hquote

theorem InHead.skipBlanks {cursor : Cursor} (h : InHead c text cursor) :
    InHead c text cursor.skipBlanks :=
  h.of_rest ⟨_, (leadingBlanks_append_trimLeft cursor.rest).symm⟩

theorem InHead.readWord {cursor : Cursor} (h : InHead c text cursor) :
    InHead c text cursor.readWord.2 :=
  h.of_rest ⟨_, (firstWord_append_afterWord cursor.rest).symm⟩

theorem InHead.takesOne {cursor after : Cursor} (h : InHead c text cursor)
    (htakes : cursor.TakesOne after) : InHead c text after := by
  obtain ⟨taken, left, hrest, rfl⟩ := htakes.exists_taken
  exact h.of_rest ⟨taken, hrest⟩

theorem InHead.passQuoted {cursor : Cursor} (h : InHead c text cursor) :
    InHead c text (passQuoted cursor) :=
  h.takesOne (FlagScan.takesOne_passQuoted cursor)

theorem InHead.passQuoted_extend {cursor : Cursor} (h : InHead c text cursor)
    (hink : StartsInk cursor.rest) :
    FlagScan.passQuoted (cursor.extend text) = (FlagScan.passQuoted cursor).extend text :=
  Cursor.passQuoted_extend h.closed hink (h.quotes.imp_right And.left)

/-! ## Values of flags -/

/-- Whether there is text for each of a number of values. -/
def ValuesFollow : Nat → Cursor → Prop
  | 0, _ => True
  | n + 1, cursor => cursor.skipBlanks.atEnd = false ∧ ValuesFollow n (passQuoted cursor.skipBlanks)

instance decidableValuesFollow : (n : Nat) → (cursor : Cursor) → Decidable (ValuesFollow n cursor)
  | 0, _ => .isTrue trivial
  | n + 1, cursor =>
    have := decidableValuesFollow n (passQuoted cursor.skipBlanks)
    inferInstanceAs (Decidable (_ ∧ _))

/-- The cursor behind a flag and its value. -/
def behindFlag (f : Slot) (cursor : Cursor) : Cursor :=
  if f.isSwitch then cursor else passQuoted cursor.skipBlanks

/-- The flags of a command can be read: none takes the rest, and all have standard types. -/
def FlagsReadable (c : Command α) : Prop :=
  ∀ f ∈ c.flags, f.type.Standard ∧ f.isGreedy = false

/-- Behind a flag that is read in a head, the pass stands where the completion does. -/
theorem readFlag_extend (hflags : FlagsReadable c) (htext : StartsInk text) {f : Slot}
    (hf : f ∈ c.flags) {cursor : Cursor} (hhead : InHead c text cursor)
    (hopen : f.isSwitch = false → cursor.skipBlanks.atEnd = false) {t t' : FlagScan.State}
    (ht : t.cursor = cursor.extend text) (h : FlagScan.readFlag c f t = (.ok (), t')) :
    t'.cursor = (behindFlag f cursor).extend text := by
  obtain ⟨htype, hgreedy⟩ := hflags f hf
  have hskipped : t.cursor.skipBlanks = cursor.skipBlanks.extend text := by
    rw [ht, Cursor.skipBlanks_extend htext]
  have hopen' : f.isSwitch = false → t.cursor.skipBlanks.atEnd = false := by
    intro _
    rw [hskipped]
    obtain ⟨x, rest, rfl, _⟩ := htext
    simp [Cursor.atEnd, Cursor.extend]
  unfold behindFlag
  rcases FlagScan.readFlag_of_open hopen' h with
    ⟨hswitch, hcursor⟩ | ⟨hflag, value, hparse, hcursor⟩
  · rw [if_pos hswitch, hcursor, ht]
  · have hink := Cursor.startsInk_skipBlanks (hopen hflag)
    rw [if_neg (by simp [hflag]), hcursor, ← hhead.skipBlanks.passQuoted_extend hink, ← hskipped]
    refine htype.cursor_parse hgreedy (fun hquote => ?_) hparse
    rw [hskipped, Cursor.peek?_extend hink] at hquote
    obtain ⟨_, hslots, _⟩ := hhead.skipBlanks.quotes.resolve_left
      fun hnone => hnone (List.mem_of_mem_head? hquote)
    exact hslots f (Command.mem_flags_iff.mp hf).1 hflag hgreedy

theorem clusterValues_cons {letter : Char} {f : Slot} (hf : c.flagByShort? letter = some f)
    (letters : List Char) :
    clusterValues c (letter :: letters)
      = if f.isSwitch then clusterValues c letters else clusterValues c letters + 1 := by
  unfold clusterValues
  rw [List.filterMap_cons_some hf]
  cases hswitch : f.isSwitch with
  | true => simp [hswitch]
  | false => simp [hswitch]

/-- Behind a cluster that is read in a head, the pass stands where the completion does. -/
theorem readCluster_extend (hflags : FlagsReadable c) (htext : StartsInk text)
    {letters : List Char} {cursor : Cursor} (hhead : InHead c text cursor)
    (hfollow : ValuesFollow (clusterValues c letters) cursor) {t t' : FlagScan.State}
    (ht : t.cursor = cursor.extend text) (h : FlagScan.readCluster c letters t = (.ok (), t')) :
    t'.cursor = (passValues (clusterValues c letters) cursor).extend text := by
  induction letters generalizing cursor t with
  | nil =>
    cases h
    exact ht
  | cons letter rest ih =>
    rw [FlagScan.readCluster] at h
    split at h
    · cases h
    · next f hfind =>
      have hf : f ∈ c.flags := List.mem_of_find?_eq_some hfind
      rw [clusterValues_cons hfind] at hfollow ⊢
      split at h
      · cases h
      · next after hread =>
        cases hswitch : f.isSwitch with
        | true =>
          rw [hswitch, if_pos rfl] at hfollow
          rw [if_pos rfl]
          have hcursor := readFlag_extend hflags htext hf hhead (by simp [hswitch]) ht hread
          rw [behindFlag, if_pos hswitch] at hcursor
          exact ih hhead hfollow hcursor h
        | false =>
          rw [hswitch, if_neg Bool.false_ne_true] at hfollow
          rw [if_neg Bool.false_ne_true]
          have hcursor := readFlag_extend hflags htext hf hhead (fun _ => hfollow.1) ht hread
          rw [behindFlag, if_neg (by simp [hswitch])] at hcursor
          exact ih hhead.skipBlanks.passQuoted hfollow.2 hcursor h

/-- Behind a long name that is read in a head, the pass stands where the completion does. -/
theorem readLong_extend (hflags : FlagsReadable c) (htext : StartsInk text) {name : List Char}
    {cursor : Cursor} (hhead : InHead c text cursor)
    (hfollow : ValuesFollow (longValues c name) cursor) {t t' : FlagScan.State}
    (ht : t.cursor = cursor.extend text) (h : FlagScan.readLong c name t = (.ok (), t')) :
    t'.cursor = (passValues (longValues c name) cursor).extend text := by
  unfold FlagScan.readLong at h
  unfold longValues at hfollow ⊢
  split at h
  · cases h
  · next f hfind =>
    have hf : f ∈ c.flags := List.mem_of_find?_eq_some hfind
    rw [hfind] at hfollow ⊢
    dsimp only at hfollow ⊢
    cases hswitch : f.isSwitch with
    | true =>
      have hcursor := readFlag_extend hflags htext hf hhead (by simp [hswitch]) ht h
      rwa [behindFlag, if_pos hswitch] at hcursor
    | false =>
      rw [hswitch, if_neg Bool.false_ne_true] at hfollow
      have hcursor := readFlag_extend hflags htext hf hhead (fun _ => hfollow.1) ht h
      rwa [behindFlag, if_neg (by simp [hswitch])] at hcursor

/-! ## Nodes -/

/-- Only a quote is folded to one. -/
theorem eq_quote_of_toLower {x : Char} (h : x.toLower = '"') : x = '"' := by
  unfold Char.toLower at h
  split at h
  · next hupper =>
    obtain ⟨hlow, hhigh⟩ := hupper
    have hsum : x.val + ('a'.val - 'A'.val) = '"'.val := congrArg Char.val h
    have hnat := congrArg UInt32.toNat hsum
    have hlow' : 65 ≤ x.val.toNat := hlow
    have hhigh' : x.val.toNat ≤ 90 := hhigh
    have hshift : ('a'.val - 'A'.val).toNat = 32 := rfl
    have hquote : ('"'.val).toNat = 34 := rfl
    rw [UInt32.toNat_add, hshift, hquote] at hnat
    omega
  · exact h

/-- A word that begins with a quote matches only such words of a grammar. -/
theorem head?_of_wordMatches {literal : String} {word : List Char}
    (hmatch : wordMatches literal word = true) (hword : word.head? = some '"') :
    literal.toList.head? = some '"' := by
  have hfold := congrArg List.head? (sameFolded_iff.mp hmatch)
  rw [foldCase, foldCase, List.head?_map, List.head?_map, hword] at hfold
  obtain ⟨x, hx, hlower⟩ := Option.map_eq_some_iff.mp hfold
  rw [hx, eq_quote_of_toLower hlower]

/-- Where a completion passes a node, it passes over a word or a text between quotes. -/
theorem cursor_of_passNode (htypes : ∀ slot ∈ c.slots, slot.type.Standard) {s s' : State}
    {notes : List Note} (hnodes : s.pending ⊆ c.positional) (hink : StartsInk s.cursor.rest)
    (hquotes : QuotesAgree c s.cursor.rest text) (h : passNode s = (some s', notes)) :
    s'.cursor = passQuoted s.cursor := by
  have hopen : s.cursor.atEnd = false := by
    obtain ⟨x, rest, hrest, _⟩ := hink
    simp [Cursor.atEnd, hrest]
  have hkept (hquote : s.cursor.peek? = some '"') :=
    hquotes.resolve_left fun hnone => hnone (List.mem_of_mem_head? hquote)
  obtain ⟨n, rest, hpending, hcases⟩ := passNode_cases h
  have hn : n ∈ c.positional := hnodes (hpending ▸ List.mem_cons_self)
  rcases hcases with
    ⟨literal, hsegment, hmatch, rfl⟩ | ⟨slot, value, hsegment, hgreedy, hparse, rfl⟩
  · refine (Cursor.passQuoted_of_peek?_ne fun hquote => ?_).symm
    have hword : s.cursor.readWord.1.head? = some '"' := (Cursor.head?_peekWord hink).trans hquote
    exact (hkept hquote).2.2 n hn literal hsegment (head?_of_wordMatches hmatch hword)
  · have hslot : n.slot? = some slot := by rw [Node.slot?, hsegment]
    obtain ⟨hnode, hplaced⟩ := List.mem_filter.mp hn
    have hmem : slot ∈ c.slots := List.mem_filterMap.mpr ⟨n, hnode, hslot⟩
    have hswitch : slot.isSwitch = false :=
      Slot.isSwitch_of_isPositional ((isPositional_of_slot? hslot).symm.trans hplaced)
    have htyped := Slot.parse_eq_of_not_atEnd hopen hparse
    dsimp only
    rw [htyped] at hparse ⊢
    exact (htypes slot hmem).cursor_parse hgreedy
      (fun hquote => (hkept hquote).2.1 slot hmem hswitch hgreedy) hparse

/-! ## One turn -/

/-- How many values the word at a cursor asks for. -/
def valuesAsked (settings : Settings) (c : Command α) (cursor : Cursor) : Nat :=
  match settings.role cursor.peekWord with
  | .long name => longValues c name
  | .cluster letters => clusterValues c letters
  | _ => 0

theorem source_passValues (n : Nat) (cursor : Cursor) :
    (passValues n cursor).source = cursor.source := by
  induction n generalizing cursor with
  | zero => rfl
  | succ n ih =>
    rw [passValues, ih, (FlagScan.takesOne_passQuoted _).source_eq, Cursor.source_skipBlanks]

theorem InHead.passValues {cursor : Cursor} (h : InHead c text cursor) (n : Nat) :
    InHead c text (passValues n cursor) := by
  induction n generalizing cursor with
  | zero => exact h
  | succ n ih => exact ih h.skipBlanks.passQuoted

theorem flagsEnded_turn {s s' : State} {notes : List Note} (hended : s.flagsEnded = true)
    (h : turn settings c s = (some s', notes)) : s'.flagsEnded = true := by
  unfold turn at h
  rw [hended] at h
  exact (flagsEnded_of_passNode h).trans hended

/-- Behind a bare mark a walk finds no other. -/
theorem flagsEnded_walk {turns : Nat} {s e : State} {notes : List Note}
    (hended : s.flagsEnded = true) (h : walk settings c turns s = (some e, notes)) :
    e.flagsEnded = true := by
  induction turns generalizing s with
  | zero => cases h
  | succ turns ih =>
    rw [walk] at h
    dsimp only at h
    split at h
    · cases h
      exact hended
    · split at h
      · next hturn =>
        have hafter := flagsEnded_turn (by exact hended) hturn
        exact ih hafter h
      · cases h

/-- A walk and a pass that stand at one place of a head, before a bare mark. -/
structure InStep (c : Command α) (text : List Char) (s : State) (t : FlagScan.State) : Prop where
  head : InHead c text s.cursor
  pending : s.pending ⊆ c.positional
  unmarked : s.flagsEnded = false
  cursor : t.cursor = s.cursor.extend text

/-- Both go on behind the values of flags. -/
theorem InStep.passValues {s : State} {t after : FlagScan.State} (h : InStep c text s t) (n : Nat)
    (hafter : after.cursor = (passValues n s.cursor.skipBlanks.readWord.2).extend text) :
    InStep c text { s with cursor := passValues n s.cursor.skipBlanks.readWord.2 } after
      ∧ (passValues n s.cursor.skipBlanks.readWord.2).source = s.cursor.source := by
  refine ⟨⟨h.head.skipBlanks.readWord.passValues n, h.pending, h.unmarked, hafter⟩, ?_⟩
  rw [source_passValues, Cursor.source_readWord, Cursor.source_skipBlanks]

/-- Both go on behind a node. -/
theorem InStep.passNode (htypes : ∀ slot ∈ c.slots, slot.type.Standard) {s s' : State}
    {t after : FlagScan.State} (h : InStep c text s t) (hink : StartsInk s.cursor.skipBlanks.rest)
    {notes : List Note}
    (hpass : passNode { s with cursor := s.cursor.skipBlanks } = (some s', notes))
    (hafter : after.cursor = (passQuoted s.cursor.skipBlanks).extend text) :
    InStep c text s' after ∧ s'.cursor.source = s.cursor.source := by
  have hcursor := cursor_of_passNode htypes (by exact h.pending) (by exact hink)
    (by exact h.head.skipBlanks.quotes) hpass
  have hended := flagsEnded_of_passNode hpass
  obtain ⟨n, hpending⟩ := pending_of_passNode hpass
  constructor
  · refine ⟨?_, ?_, hended.trans h.unmarked, ?_⟩
    · rw [hcursor]
      exact h.head.skipBlanks.passQuoted
    · intro m hm
      refine h.pending ?_
      rw [show s.pending = n :: s'.pending from hpending]
      exact List.mem_cons_of_mem n hm
    · rw [hcursor, hafter]
  · rw [hcursor, (FlagScan.takesOne_passQuoted _).source_eq, Cursor.source_skipBlanks]

/-- What a turn of the pass does at a word of a head. -/
theorem turn_extend (settings : Settings) (htext : StartsInk text) {cursor : Cursor}
    (hhead : InHead c text cursor) (hopen : cursor.skipBlanks.atEnd = false) {t : FlagScan.State}
    (ht : t.cursor = cursor.extend text) :
    FlagScan.turn settings c t
      = FlagScan.turnAtWord settings c { t with cursor := cursor.skipBlanks.extend text }
      ∧ (cursor.skipBlanks.extend text).peekWord = cursor.skipBlanks.peekWord
      ∧ (cursor.skipBlanks.extend text).readWord.2
        = cursor.skipBlanks.readWord.2.extend text := by
  have hink := Cursor.startsInk_skipBlanks hopen
  have hclosed := hhead.skipBlanks.closed
  refine ⟨?_, Cursor.peekWord_extend hclosed hink text,
    congrArg Prod.snd (Cursor.readWord_extend hclosed hink text)⟩
  have hskipped : t.cursor.skipBlanks = cursor.skipBlanks.extend text := by
    rw [ht, Cursor.skipBlanks_extend htext]
  have hmore : (cursor.skipBlanks.extend text).atEnd = false := by
    obtain ⟨x, rest, rfl, _⟩ := htext
    simp [Cursor.atEnd, Cursor.extend]
  unfold FlagScan.turn
  rw [hskipped]
  exact if_neg (by simp [hmore])

/-- One turn of the pass, where the walk has taken one: the pass fails, or both find a bare mark, or
both go on in step. -/
theorem turn_inStep (hflags : FlagsReadable c) (htypes : ∀ slot ∈ c.slots, slot.type.Standard)
    (htext : StartsInk text) {s s' : State} {notes : List Note} {t : FlagScan.State}
    (h : InStep c text s t) (hopen : s.cursor.skipBlanks.atEnd = false)
    (hfollow : ValuesFollow (valuesAsked settings c s.cursor.skipBlanks)
      s.cursor.skipBlanks.readWord.2)
    (hturn : turn settings c { s with cursor := s.cursor.skipBlanks } = (some s', notes)) :
    (∃ e after, FlagScan.turn settings c t = (.error e, after))
      ∨ (s'.flagsEnded = true ∧ ∃ after, FlagScan.turn settings c t = (.ok true, after))
      ∨ ∃ t', FlagScan.turn settings c t = (.ok false, t') ∧ InStep c text s' t'
        ∧ s'.cursor.source = s.cursor.source := by
  have hink := Cursor.startsInk_skipBlanks hopen
  obtain ⟨hscan, hpeek, hbehind⟩ := turn_extend settings htext h.head hopen h.cursor
  rw [hscan]
  unfold FlagScan.turnAtWord
  unfold valuesAsked at hfollow
  dsimp only
  rw [hpeek, hbehind]
  unfold turn at hturn
  dsimp only at hturn
  rw [if_neg (by simp [h.unmarked])] at hturn
  unfold passFlag? at hturn
  dsimp only at hturn
  cases hrole : settings.role s.cursor.skipBlanks.peekWord with
  | endMark =>
    rw [hrole] at hturn
    cases hturn
    exact .inr (.inl ⟨rfl, _, rfl⟩)
  | long name =>
    rw [hrole] at hturn hfollow
    cases hturn
    dsimp only
    split
    · exact .inl ⟨_, _, rfl⟩
    · next after hread =>
      have hcursor := readLong_extend hflags htext h.head.skipBlanks.readWord hfollow rfl hread
      have hcut : (after.cutFrom (s.cursor.skipBlanks.extend text).position).cursor = _ := hcursor
      exact .inr (.inr ⟨_, rfl, h.passValues _ hcut⟩)
  | cluster letters =>
    rw [hrole] at hturn hfollow
    cases hturn
    dsimp only
    split
    · exact .inl ⟨_, _, rfl⟩
    · next after hread =>
      have hcursor := readCluster_extend hflags htext h.head.skipBlanks.readWord hfollow rfl hread
      have hcut : (after.cutFrom (s.cursor.skipBlanks.extend text).position).cursor = _ := hcursor
      exact .inr (.inr ⟨_, rfl, h.passValues _ hcut⟩)
  | quoted =>
    rw [hrole] at hturn
    dsimp only at hturn ⊢
    rw [h.head.skipBlanks.passQuoted_extend hink]
    exact .inr (.inr ⟨_, rfl, h.passNode htypes hink hturn rfl⟩)
  | plain =>
    rw [hrole] at hturn
    dsimp only at hturn ⊢
    have hquote : s.cursor.skipBlanks.peek? ≠ some '"' := by
      rw [← Cursor.head?_peekWord hink]
      exact Settings.head?_ne_of_role_eq_plain hrole
    rw [← Cursor.passQuoted_of_peek?_ne hquote]
    exact .inr (.inr ⟨_, rfl, h.passNode htypes hink hturn rfl⟩)

/-! ## Whole walks -/

/-- A pass over a head, and a text behind it, stands in front of the word at a cursor of the
head. -/
structure StandsIn (head text : List Char) (cursor : Cursor) (t : FlagScan.State) : Prop where
  place : t.cursor.skipBlanks = cursor.extend text
  source : cursor.source = head
  opens : cursor.atEnd = false

/-- What may become of a pass on its way to a word behind a head: it fails in the head, or a bare
mark there ends it, or a flag there lacks a value, or it comes to stand in front of the word.
`ended` tells whether a bare mark has been found. -/
inductive Fate (settings : Settings) (c : Command α) (head text : List Char) (ended : Bool)
    (t : FlagScan.State) : Prop where
  | fails {cursor : Cursor} (hin : StandsIn head text cursor t) {e : CommandError}
      {after : FlagScan.State} (hturn : FlagScan.turn settings c t = (.error e, after)) :
      Fate settings c head text ended t
  | marked {cursor : Cursor} (hin : StandsIn head text cursor t) (hended : ended = true)
      {after : FlagScan.State} (hturn : FlagScan.turn settings c t = (.ok true, after)) :
      Fate settings c head text ended t
  | lacks {cursor : Cursor} (hin : StandsIn head text cursor t)
      (hvalues : ¬ ValuesFollow (valuesAsked settings c cursor) cursor.readWord.2) :
      Fate settings c head text ended t
  | reaches (hended : ended = false) (hplace : t.cursor.skipBlanks = ⟨head, text⟩) :
      Fate settings c head text ended t

/-- A walk that comes to its end keeps in step with the pass up to one of the fates. -/
theorem walk_fate (hflags : FlagsReadable c) (htypes : ∀ slot ∈ c.slots, slot.type.Standard)
    (htext : StartsInk text) {turns : Nat} {s e : State} {notes : List Note} {t : FlagScan.State}
    (h : InStep c text s t) (hwalk : walk settings c turns s = (some e, notes)) :
    ∃ t', FlagScan.Passes settings c t t'
      ∧ Fate settings c s.cursor.source text e.flagsEnded t' := by
  induction turns generalizing s t with
  | zero => cases hwalk
  | succ turns ih =>
    have hplace : t.cursor.skipBlanks = s.cursor.skipBlanks.extend text := by
      rw [h.cursor, Cursor.skipBlanks_extend htext]
    cases hend : s.cursor.skipBlanks.atEnd with
    | true =>
      rw [walk_of_atEnd hend] at hwalk
      cases hwalk
      refine ⟨t, .refl t, .reaches h.unmarked ?_⟩
      have hrest : s.cursor.skipBlanks.rest = [] := List.isEmpty_iff.mp hend
      rw [hplace, ← Cursor.source_skipBlanks, Cursor.source, Cursor.extend, hrest]
      simp
    | false =>
      have hin : StandsIn s.cursor.source text s.cursor.skipBlanks t :=
        ⟨hplace, Cursor.source_skipBlanks _, hend⟩
      rw [walk] at hwalk
      dsimp only at hwalk
      rw [if_neg (by simp [hend])] at hwalk
      split at hwalk
      · next s' _ hturn =>
        by_cases hfollow : ValuesFollow (valuesAsked settings c s.cursor.skipBlanks)
            s.cursor.skipBlanks.readWord.2
        · rcases turn_inStep hflags htypes htext h hend hfollow hturn with
            ⟨_, _, hfails⟩ | ⟨hmarked, _, hends⟩ | ⟨next, hgoes, hstep, hsource⟩
          · exact ⟨t, .refl t, .fails hin hfails⟩
          · exact ⟨t, .refl t, .marked hin (flagsEnded_walk hmarked hwalk) hends⟩
          · obtain ⟨t', hpasses, hfate⟩ := ih hstep hwalk
            exact ⟨t', .step hgoes hpasses, hsource ▸ hfate⟩
        · exact ⟨t, .refl t, .lacks hin hfollow⟩
      · cases hwalk

/-! ## The word in front -/

/-- A text behind which a word may begin: it is empty or ends with a blank, or with a text between
quotes that begins behind such a text. -/
inductive WordStart : List Char → Prop where
  | closed {front : List Char} (h : Closed front) : WordStart front
  | quoted {front : List Char} (h : WordStart front) (content : List Char) :
      WordStart (front ++ '"' :: Quoted.encode '"' content)

/-- A word of a text: it begins where a word may begin, no blank is in it, and a blank or the end
follows. -/
structure WholeWord (front word back : List Char) : Prop where
  opening : WordStart front
  ink : AllInk word
  ne_nil : word ≠ []
  ending : Separated back

/-- A place that no word goes over, or that is right behind a text between quotes. -/
def Clear (cursor : Cursor) : Prop := WordStart cursor.consumed ∨ Separated cursor.rest

/-- The next word behind a clear place begins where a word may begin. -/
theorem Clear.wordStart {cursor : Cursor} (h : Clear cursor)
    (hink : StartsInk cursor.skipBlanks.rest) : WordStart cursor.skipBlanks.consumed := by
  have hconsumed : cursor.skipBlanks.consumed = cursor.consumed ++ leadingBlanks cursor.rest := rfl
  rw [hconsumed]
  by_cases hnone : leadingBlanks cursor.rest = []
  · have hrest : cursor.skipBlanks.rest = cursor.rest := by
      have hsplit := leadingBlanks_append_trimLeft cursor.rest
      rwa [hnone, List.nil_append] at hsplit
    rw [hrest] at hink
    rw [hnone, List.append_nil]
    exact h.resolve_right hink.not_separated
  · have hblank := endsBlank_of_allBlank (allBlank_leadingBlanks cursor.rest) hnone
    exact .closed (.inr ((endsBlank_append hnone cursor.consumed).trans hblank))

theorem clear_readWord (cursor : Cursor) : Clear cursor.readWord.2 :=
  .inr (separated_afterWord cursor.rest)

theorem Clear.takesOne {cursor after : Cursor} (h : Clear cursor)
    (htakes : cursor.skipBlanks.TakesOne after) : Clear after := by
  cases htakes with
  | word => exact clear_readWord cursor.skipBlanks
  | @quoted text content hquote hscan =>
    have hink : StartsInk cursor.skipBlanks.rest := by
      rw [hquote]
      exact startsInk_cons_iff.mpr rfl
    left
    dsimp only
    rw [Quoted.passed_of_result_eq_ok hscan]
    exact .quoted (h.wordStart hink) content

theorem Clear.passValues {cursor : Cursor} (h : Clear cursor) (n : Nat) :
    Clear (passValues n cursor) := by
  induction n generalizing cursor with
  | zero => exact h
  | succ n ih => exact ih (h.takesOne (FlagScan.takesOne_passQuoted _))

/-- The next word behind a clear place is a whole one. -/
theorem Clear.wholeWord {cursor : Cursor} (h : Clear cursor)
    (hopen : cursor.skipBlanks.atEnd = false) :
    WholeWord cursor.skipBlanks.consumed cursor.skipBlanks.readWord.1
      (afterWord cursor.skipBlanks.rest) where
  opening := h.wordStart (Cursor.startsInk_skipBlanks hopen)
  ink := allInk_firstWord _
  ne_nil := firstWord_ne_nil (Cursor.startsInk_skipBlanks hopen)
  ending := separated_afterWord _

/-- A walk that has passed the word at the front of the grammar has found it in the head. -/
theorem walk_matches {turns : Nat} {s e : State} {notes : List Note} {n : Node} {rest : List Node}
    {literal : String} (hclear : Clear s.cursor) (hpending : s.pending = n :: rest)
    (hword : n.segment = .word literal) (hwalk : walk settings c turns s = (some e, notes)) :
    e.pending = n :: rest
      ∨ ∃ front word back, s.cursor.source = front ++ (word ++ back) ∧ WholeWord front word back
          ∧ wordMatches literal word = true := by
  induction turns generalizing s with
  | zero => cases hwalk
  | succ turns ih =>
    rw [walk] at hwalk
    dsimp only at hwalk
    split at hwalk
    · cases hwalk
      exact .inl hpending
    · next hopen =>
      split at hwalk
      · next hturn =>
        unfold turn at hturn
        split at hturn
        · next hflag =>
          cases hturn
          split at hflag
          · cases hflag
          · obtain ⟨_, _, rfl⟩ := passFlag?_cases hflag
            have hlater := ih ((clear_readWord _).passValues _) (by exact hpending) hwalk
            rwa [source_passValues, Cursor.source_readWord, Cursor.source_skipBlanks] at hlater
        · obtain ⟨m, later, hpending', hcases⟩ := passNode_cases hturn
          dsimp only at hpending'
          rw [hpending] at hpending'
          cases hpending'
          rcases hcases with ⟨other, hsegment, hmatch, _⟩ | ⟨slot, _, hsegment, _⟩
          · rw [hword] at hsegment
            cases hsegment
            refine .inr ⟨s.cursor.skipBlanks.consumed, _, afterWord s.cursor.skipBlanks.rest, ?_,
              hclear.wholeWord (by simpa using hopen), hmatch⟩
            rw [← Cursor.source_skipBlanks]
            exact congrArg _ (firstWord_append_afterWord _).symm
          · rw [hword] at hsegment
            cases hsegment
      · cases hwalk

/-! ## Last words -/

/-- A pass reads the word in front of which it stands as a long name of the given flag. -/
def ReadsAs (settings : Settings) (c : Command α) (f : Slot) (t : FlagScan.State) : Prop :=
  ∃ name, settings.role t.cursor.skipBlanks.peekWord = .long name ∧ c.flagByLong? name = some f

/-- A pass leaves the word in front of which it stands to the nodes: it passes over it, cuts nothing
out and takes it for no flag. -/
def Leaves (settings : Settings) (c : Command α) (t : FlagScan.State) : Prop :=
  ∃ after, FlagScan.turn settings c t = (.ok false, after) ∧ after.cuts = t.cuts
    ∧ after.seen = t.seen

/-- The mark and a long name are read as that name. -/
theorem role_mark_append {settings : Settings} {name : List Char} (hne : name ≠ []) :
    settings.role (settings.longMark.toList ++ name) = .long name := by
  have hlonger : settings.longMark.toList ++ name ≠ settings.longMark.toList := by
    intro hsame
    exact hne (List.append_right_eq_self.mp hsame)
  have hlength : 0 < name.length := List.length_pos_of_ne_nil hne
  have hname : settings.longName? (settings.longMark.toList ++ name) = some name := by
    simp [Settings.longName?, Settings.afterMark?, hlength]
  unfold Settings.role
  rw [if_neg hlonger, hname]

/-- A word that spells no flag is left to the nodes. -/
theorem leaves_of_not_marked {word head : List Char} (hword : StartsInk word)
    (hplain : ¬ IsMarked settings (firstWord word)) {t : FlagScan.State}
    (hplace : t.cursor.skipBlanks = ⟨head, word⟩) : Leaves settings c t := by
  have hopen : t.cursor.skipBlanks.atEnd = false := by
    obtain ⟨x, rest, rfl, _⟩ := hword
    rw [hplace]
    rfl
  have hpeek : t.cursor.skipBlanks.peekWord = firstWord word := by rw [hplace]; rfl
  unfold Leaves FlagScan.turn
  dsimp only
  rw [if_neg (by simp [hopen])]
  unfold FlagScan.turnAtWord
  dsimp only
  rw [hpeek]
  unfold IsMarked at hplain
  cases hrole : settings.role (firstWord word) with
  | endMark => exact absurd ⟨by simp [hrole], by simp [hrole]⟩ hplain
  | long name => exact absurd ⟨by simp [hrole], by simp [hrole]⟩ hplain
  | cluster letters => exact absurd ⟨by simp [hrole], by simp [hrole]⟩ hplain
  | quoted => exact ⟨_, rfl, rfl, rfl⟩
  | plain => exact ⟨_, rfl, rfl, rfl⟩

/-- The word at the front of a compiled command is its name. -/
theorem exists_positional_eq (h : c.Compiled) :
    ∃ n rest, c.positional = n :: rest ∧ n.segment = .word c.name := by
  obtain ⟨n, rest, hnodes, hword⟩ := h.wellShaped.startsWithWord
  obtain ⟨segment, last, ends⟩ := n
  cases segment with
  | slot slot => cases hword
  | word text =>
    refine ⟨⟨.word text, last, ends⟩, rest.filter Node.isPositional, ?_, ?_⟩
    · rw [Command.positional, hnodes]
      exact List.filter_cons_of_pos rfl
    · rw [Command.name, hnodes]
      rfl

/-- Where a completion has walked over a head, the pass over the head and a last word has one of
four fates.  Where it comes to the last word, it reads the name of a flag that is offered as that
flag, if it is found by that name, and it leaves a word that spells no flag to the nodes.  If the
walk has passed a node, the word at the front of the grammar is a word of the head. -/
theorem lastWord_fate {pipeline : Pipeline α} (hpipeline : pipeline.IsBuiltIn)
    {d : Declaration α} {path : String} {id : CommandId}
    (hcompile : Compile.compile pipeline d path id = .ok c)
    (hgreedy : ∀ f ∈ c.flags, f.isGreedy = false) {head partialWord : List Char}
    (hhead : Closed head) (hpartial : AllInk partialWord) {e : State} {notes : List Note}
    (hwalk : walkHead settings c actor (String.ofList (head ++ partialWord)) = (some e, notes))
    {word : List Char} (hword : AllInk word) (hne : word ≠ []) (hquotes : QuotesAgree c head word) :
    (e.pending = c.positional
        ∨ ∃ front first back, head = front ++ (first ++ back) ∧ WholeWord front first back
            ∧ wordMatches c.name first = true)
      ∧ ∃ t, FlagScan.Passes settings c (.start c actor (String.ofList (head ++ word))) t
        ∧ Fate settings c head word e.flagsEnded t
        ∧ (t.cursor.skipBlanks = ⟨head, word⟩ →
            (∀ f long, OfferedAt settings c e partialWord (.flagName f) (String.ofList word) →
                f.longName? = some long → long.toList ≠ [] →
                c.flagByLong? long.toList = some f → ReadsAs settings c f t)
              ∧ (¬ IsMarked settings word → Leaves settings c t)) := by
  have htypes : ∀ slot ∈ c.slots, slot.type.Standard :=
    fun slot hslot => Compile.standard_of_compile hpipeline hcompile hslot
  have hflags : FlagsReadable c :=
    fun f hf => ⟨htypes f (Command.mem_flags_iff.mp hf).1, hgreedy f hf⟩
  have hink : StartsInk word := hword.startsInk hne
  have hfirst : firstWord word = word := by
    have happend := firstWord_append hword separated_nil
    rwa [List.append_nil] at happend
  unfold walkHead at hwalk
  rw [String.toList_ofList, splitPartial_append_of_allInk hhead hpartial] at hwalk
  constructor
  · obtain ⟨n, rest, hpositional, hsegment⟩ :=
      exists_positional_eq ⟨pipeline, d, path, id, hcompile⟩
    have hstart : Clear (.ofText head) := .inl (.closed (.inl rfl))
    have hmatches := walk_matches hstart (by exact hpositional) hsegment hwalk
    rw [← hpositional] at hmatches
    exact hmatches
  · have hstart : InStep c word
        ⟨.ofText head, .start actor c.info (String.ofList (head ++ partialWord)), [], c.positional,
          false⟩
        (.start c actor (String.ofList (head ++ word))) := by
      refine ⟨⟨hhead, hquotes⟩, List.Subset.refl _, rfl, ?_⟩
      simp [FlagScan.State.start, Cursor.ofText, Cursor.extend]
    obtain ⟨t, hpasses, hfate⟩ := walk_fate hflags htypes hink hstart hwalk
    refine ⟨t, hpasses, hfate, fun hplace => ⟨?_, ?_⟩⟩
    · intro f long hoffered hlong hnonempty hfound
      refine ⟨long.toList, ?_, hfound⟩
      obtain ⟨_, hlong', htext⟩ := hoffered.spells
      rw [hlong] at hlong'
      cases hlong'
      have hspelled : word = settings.longMark.toList ++ long.toList := by
        rw [← String.toList_ofList (l := word), htext, String.toList_append]
      have hpeek : t.cursor.skipBlanks.peekWord = word := by
        rw [hplace]
        exact hfirst
      rw [hpeek, hspelled, role_mark_append hnonempty]
    · intro hplain
      rw [← hfirst] at hplain
      exact leaves_of_not_marked hink hplain hplace

/-- A switch. -/
def silent : Slot := .ofParameter (.asSwitch (.required "silent" .bool) .byParameter) .bool

/-- A flag that may be left out. -/
def note : Slot :=
  .ofParameter (.asFlag (.optional (.required "note" .string)) .byParameter) .string

/-- `give <item>`, with a suggestion for the item, a switch and a flag. -/
def noting : Declaration Unit where
  paths := ["give <item>"]
  parameters := [suggesting "item" "apple", silent.parameter, note.parameter]
  action := ()
  metadata := .none

/-- `give <item> [--silent] [--note <note>]` -/
def giveNoting : Command Unit :=
  ⟨⟨0⟩, [⟨.word "give", false, false⟩,
      ⟨.slot (.ofParameter (suggesting "item" "apple") .text), false, false⟩,
      ⟨.slot silent, false, false⟩, ⟨.slot note, true, true⟩], .none, ⟨(), []⟩⟩

theorem compile_noting :
    Compile.compile (.standard Unit) noting "give <item>" ⟨0⟩ = .ok giveNoting := rfl

/-- Where the walk over `give --note "for you" ` ends. -/
def behindNote : State :=
  ⟨⟨"give --note \"for you\" ".toList, []⟩,
    .start default giveNoting.info "give --note \"for you\" --s", [],
    giveNoting.positional.drop 1, false⟩

theorem lastWord_silent :
    Closed "give --note \"for you\" ".toList
      ∧ QuotesAgree giveNoting "give --note \"for you\" ".toList "--silent".toList
      ∧ walkHead .standard giveNoting default
          (String.ofList ("give --note \"for you\" ".toList ++ "--s".toList))
        = (some behindNote, [])
      ∧ ∃ t, FlagScan.Passes .standard giveNoting (.start giveNoting default
            (String.ofList ("give --note \"for you\" ".toList ++ "--silent".toList))) t
          ∧ Fate .standard giveNoting "give --note \"for you\" ".toList "--silent".toList false t
          ∧ (t.cursor.skipBlanks
                = ⟨"give --note \"for you\" ".toList, "--silent".toList⟩ →
              ReadsAs .standard giveNoting silent t) := by
  have hhead : Closed "give --note \"for you\" ".toList := .inr (by decide)
  have hwalk : walkHead .standard giveNoting default
      (String.ofList ("give --note \"for you\" ".toList ++ "--s".toList))
        = (some behindNote, []) := by
    unfold walkHead behindNote
    rw [String.toList_ofList, splitPartial_append_of_allInk hhead (by decide)]
    simp only [String.reduceToList]
    rfl
  have hslots : giveNoting.slots
      = [.ofParameter (suggesting "item" "apple") .text, silent, note] := rfl
  have hflags : giveNoting.flags = [silent, note] := rfl
  have hquotes : QuotesAgree giveNoting "give --note \"for you\" ".toList "--silent".toList := by
    refine .inr ⟨by decide, ?_, ?_⟩
    · intro s hs hswitch hgreedy
      rw [hslots] at hs
      simp only [List.mem_cons, List.not_mem_nil, or_false] at hs
      rcases hs with rfl | rfl | rfl
      · cases hgreedy
      · cases hswitch
      · exact ValueType.takesText_string.keepsQuotes fun _ _ h => nomatch h
    · intro n hn literal hliteral
      have hpositional : giveNoting.positional = giveNoting.nodes.take 2 := rfl
      rw [hpositional] at hn
      simp only [giveNoting, List.take_succ_cons, List.take_zero, List.mem_cons, List.not_mem_nil,
        or_false] at hn
      rcases hn with rfl | rfl
      · cases hliteral
        decide
      · cases hliteral
  have hgreedy : ∀ f ∈ giveNoting.flags, f.isGreedy = false := by
    intro f hf
    rw [hflags] at hf
    simp only [List.mem_cons, List.not_mem_nil, or_false] at hf
    rcases hf with rfl | rfl <;> rfl
  obtain ⟨_, t, hpasses, hfate, hlast⟩ := lastWord_fate Pipeline.isBuiltIn_standard compile_noting
    hgreedy hhead (by decide) hwalk (by decide) (by decide) hquotes
  refine ⟨hhead, hquotes, hwalk, t, hpasses, hfate, fun hplace => ?_⟩
  refine (hlast hplace).1 silent "silent" ?_ rfl (by decide) rfl
  have htext : String.ofList "--silent".toList = Settings.standard.longMark ++ "silent" := by
    decide
  rw [htext]
  exact .flagName (by decide) (hflags ▸ List.mem_cons_self) rfl

/-- A word that would be read as the value of a flag is completed as an item, and behind a bare mark
names of flags are offered that would be read as items. -/
theorem note_completed_as_item :
    Compile.compile (.standard Unit) noting "give <item>" ⟨0⟩ = .ok giveNoting
      ∧ (ofCommand .standard giveNoting default "give --note a").1 = ["apple"]
      ∧ (∃ s, FlagScan.scan .standard giveNoting 3 (.start giveNoting default "give --note apple")
            = some (.ok (), s)
          ∧ s.context.arguments.get? "note" = some (.string "apple") ∧ s.cuts = [⟨5, 17⟩])
      ∧ (ofCommand .standard giveNoting default "give -- --s").1 = ["--silent"]
      ∧ ∃ s, FlagScan.scan .standard giveNoting 2 (.start giveNoting default "give -- --silent")
            = some (.ok (), s)
          ∧ s.seen = [] ∧ s.cuts = [⟨5, 7⟩] :=
  ⟨rfl, rfl, ⟨_, rfl, rfl, rfl⟩, rfl, _, rfl, rfl, rfl⟩

end Completion

end CommandGrammar
