import CommandGrammar.Completion
import CommandGrammar.Proofs.Command.Structure

/-!
# What is offered, and to whom

A completion goes back to a word of a grammar, to a slot among whose candidates it is, or to a flag
whose name it spells.  This module says exactly which texts are offered.  They come from commands
that are not secret and admit the actor, and from words and from slots that admit the actor; the
names of flags are offered whatever the permissions of the flags.
-/

set_option autoImplicit false

namespace CommandGrammar.Completion

variable {α : Type} {settings : Settings} {c : Command α} {actor : Actor} {input text : String}

/-! ## Sorted lists without repetitions -/

theorem mem_eraseRepsBy_loop {a b : String} {l kept : List String} :
    b ∈ List.eraseRepsBy.loop (· == ·) a l kept ↔ b = a ∨ b ∈ l ∨ b ∈ kept := by
  induction l generalizing a kept with
  | nil => simp [List.eraseRepsBy.loop, or_comm]
  | cons x rest ih =>
    rw [List.eraseRepsBy.loop]
    split
    next hsame =>
      rw [ih, List.mem_cons, ← beq_iff_eq.mp hsame]
      tauto
    next =>
      rw [ih, List.mem_cons, List.mem_cons]
      tauto

/-- Sorting and listing each text once loses none. -/
theorem mem_sortedUnique {texts : List String} : text ∈ sortedUnique texts ↔ text ∈ texts := by
  have hsorted : text ∈ (texts.mergeSort fun a b => decide (a ≤ b)) ↔ text ∈ texts :=
    List.mem_mergeSort
  rw [← hsorted, sortedUnique, List.eraseReps]
  cases texts.mergeSort fun a b => decide (a ≤ b) with
  | nil => rfl
  | cons a rest => simp [List.eraseRepsBy, mem_eraseRepsBy_loop]

theorem visible_iff :
    visible c actor = true
      ↔ c.metadata.secret = false ∧ admitted c.metadata.permission actor = true := by
  simp [visible]

/-- A text is offered exactly if a visible command offers it. -/
theorem mem_ofCommands {commands : List (Command α)} :
    text ∈ (ofCommands settings commands actor input).1
      ↔ ∃ c ∈ commands, visible c actor = true
          ∧ text ∈ (ofCommand settings c actor input).1 := by
  simp only [ofCommands, mem_sortedUnique, List.mem_flatten, List.mem_map, List.mem_filter]
  constructor
  · rintro ⟨_, ⟨_, ⟨c, ⟨hc, hvisible⟩, rfl⟩, rfl⟩, htext⟩
    exact ⟨c, hc, hvisible, htext⟩
  · rintro ⟨c, hc, hvisible, htext⟩
    exact ⟨_, ⟨_, ⟨c, ⟨hc, hvisible⟩, rfl⟩, rfl⟩, htext⟩

/-! ## Steps of a walk -/

/-- Passing over a flag moves the cursor behind some values, and perhaps finds the bare mark. -/
theorem passFlag?_cases {s s' : State} (h : passFlag? settings c s = some s') :
    ∃ n ended, s' = { s with
      cursor := passValues n s.cursor.readWord.2, flagsEnded := ended } := by
  unfold passFlag? at h
  dsimp only at h
  split at h
  · cases h
    exact ⟨0, true, rfl⟩
  · cases h
    exact ⟨_, s.flagsEnded, rfl⟩
  · cases h
    exact ⟨_, s.flagsEnded, rfl⟩
  · cases h
  · cases h

/-- A node that is passed is a word that matches, or a slot that reads and does not take the
rest. -/
theorem passNode_cases {s s' : State} {notes : List Note} (h : passNode s = (some s', notes)) :
    ∃ n rest, s.pending = n :: rest
      ∧ ((∃ literal, n.segment = .word literal
            ∧ wordMatches literal s.cursor.readWord.1 = true
            ∧ s' = { s with cursor := s.cursor.readWord.2, pending := rest })
        ∨ ∃ slot value, n.segment = .slot slot ∧ slot.isGreedy = false
            ∧ (slot.parse s.cursor s.context).result = .ok value
            ∧ s' = { s with
                cursor := (slot.parse s.cursor s.context).cursor
                pending := rest
                notes := s.notes ++ (slot.parse s.cursor s.context).notes
                context := s.context.bind slot.name value }) := by
  unfold passNode at h
  split at h
  · cases h
  · next n rest hpending =>
    refine ⟨n, rest, hpending, ?_⟩
    split at h
    · next literal hsegment =>
      dsimp only at h
      split at h
      · next hmatch =>
        cases h
        exact .inl ⟨literal, hsegment, hmatch, rfl⟩
      · cases h
    · next slot hsegment =>
      split at h
      · cases h
      · next hgreedy =>
        dsimp only at h
        split at h
        · cases h
        · next value hparse =>
          cases h
          exact .inr ⟨slot, value, hsegment, by simpa using hgreedy, hparse, rfl⟩

theorem passNode_actor {s s' : State} {notes : List Note} (h : passNode s = (some s', notes)) :
    s'.context.actor = s.context.actor := by
  obtain ⟨n, rest, _, ⟨_, _, _, rfl⟩ | ⟨_, _, _, _, _, rfl⟩⟩ := passNode_cases h
  · rfl
  · rfl

theorem turn_actor {s after : State} {notes : List Note}
    (h : turn settings c s = (some after, notes)) : after.context.actor = s.context.actor := by
  unfold turn at h
  split at h
  next passed hpassed =>
    cases h
    split at hpassed
    next => cases hpassed
    next =>
      obtain ⟨_, _, rfl⟩ := passFlag?_cases hpassed
      rfl
  next => exact passNode_actor h

/-- A walk is on behalf of one actor throughout. -/
theorem walk_actor {turns : Nat} {s after : State} {notes : List Note}
    (h : walk settings c turns s = (some after, notes)) :
    after.context.actor = s.context.actor := by
  induction turns generalizing s with
  | zero => cases h
  | succ turns ih =>
    rw [walk] at h
    dsimp only at h
    split at h
    next => cases h; rfl
    next =>
      split at h
      next next' _ hturn => rw [ih h, turn_actor hturn]
      next => cases h

/-! ## Origins -/

/-- The walk of a command over the head of a line. -/
def walkHead (settings : Settings) (c : Command α) (actor : Actor) (input : String) :
    Option State × List Note :=
  walk settings c ((splitPartial input.toList).1.length + c.size + 1)
    ⟨.ofText (splitPartial input.toList).1, .start actor c.info input, [], c.positional, false⟩

/-- What an offer goes back to. -/
inductive Origin where
  /-- a word of the grammar -/
  | word (text : String)
  /-- a slot, one of whose candidates it is -/
  | candidate (slot : Slot)
  /-- a flag, whose name it spells -/
  | flagName (flag : Slot)

/-- Whether an actor may use what an offer goes back to; a word is for everyone. -/
def Origin.admits : Origin → Actor → Bool
  | .word _, _ => true
  | .candidate slot, actor => slot.admits actor
  | .flagName flag, actor => flag.admits actor

/-- The candidates of a slot, whoever asks. -/
def candidates (s : Slot) (partialWord : List Char) (context : Context) : List String :=
  match s.parameter.suggester with
  | some suggest => suggest partialWord context
  | none => s.type.suggestions

/-- What a walk that stands at `s` can offer for a partial word: behind the long mark the names of
flags, and otherwise what belongs to the node that comes next. -/
inductive OfferedAt (settings : Settings) (c : Command α) (s : State) (partialWord : List Char) :
    Origin → String → Prop where
  | word {node : Node} {rest : List Node} {text : String}
      (hmark : ¬ settings.longMark.toList <+: partialWord)
      (hnext : s.pending = node :: rest) (hword : node.segment = .word text) :
      OfferedAt settings c s partialWord (.word text) text
  | candidate {node : Node} {rest : List Node} {slot : Slot} {text : String}
      (hmark : ¬ settings.longMark.toList <+: partialWord)
      (hnext : s.pending = node :: rest) (hslot : node.segment = .slot slot)
      (htext : text ∈ candidates slot partialWord s.context) :
      OfferedAt settings c s partialWord (.candidate slot) text
  | flagName {flag : Slot} {long : String}
      (hmark : settings.longMark.toList <+: partialWord)
      (hflag : flag ∈ c.flags) (hlong : flag.longName? = some long) :
      OfferedAt settings c s partialWord (.flagName flag) (settings.longMark ++ long)

/-- A text that goes back to `origin` fits a line: the walk over the head comes to its end, and
what it can offer there begins like the partial word. -/
def Offered (settings : Settings) (c : Command α) (actor : Actor) (input : String)
    (origin : Origin) (text : String) : Prop :=
  ∃ s notes, walkHead settings c actor input = (some s, notes)
    ∧ OfferedAt settings c s (splitPartial input.toList).2 origin text
    ∧ fits (splitPartial input.toList).2 text = true

/-- Behind the long mark only names of flags can be offered. -/
theorem OfferedAt.exists_flag {s : State} {partialWord : List Char} {origin : Origin}
    (h : OfferedAt settings c s partialWord origin text)
    (hmark : settings.longMark.toList <+: partialWord) : ∃ f ∈ c.flags, origin = .flagName f := by
  cases h with
  | word hno => exact absurd hmark hno
  | candidate hno => exact absurd hmark hno
  | flagName _ hf _ => exact ⟨_, hf, rfl⟩

/-- Elsewhere none can. -/
theorem OfferedAt.ne_flagName {s : State} {partialWord : List Char} {origin : Origin}
    (h : OfferedAt settings c s partialWord origin text)
    (hmark : ¬ settings.longMark.toList <+: partialWord) (f : Slot) : origin ≠ .flagName f := by
  rintro rfl
  cases h with
  | flagName hmark' _ _ => exact hmark hmark'

/-- The name of a flag is offered behind its mark. -/
theorem OfferedAt.spells {s : State} {partialWord : List Char} {f : Slot}
    (h : OfferedAt settings c s partialWord (.flagName f) text) :
    ∃ long, f.longName? = some long ∧ text = settings.longMark ++ long := by
  cases h with
  | flagName _ _ hlong => exact ⟨_, hlong, rfl⟩

theorem mem_flagOffers :
    text ∈ flagOffers settings c
      ↔ ∃ f ∈ c.flags, ∃ long, f.longName? = some long ∧ text = settings.longMark ++ long := by
  unfold flagOffers
  rw [List.mem_filterMap]
  refine exists_congr fun f => and_congr_right fun _ => ?_
  rw [Option.map_eq_some_iff]
  exact exists_congr fun long => and_congr_right fun _ => eq_comm

theorem mem_slotOffers {slot : Slot} {partialWord : List Char} {context : Context} :
    text ∈ slotOffers slot partialWord context
      ↔ slot.admits context.actor = true ∧ text ∈ candidates slot partialWord context := by
  cases hadmits : slot.admits context.actor with
  | false => simp [slotOffers, hadmits]
  | true =>
    have hoffers : slotOffers slot partialWord context = candidates slot partialWord context := by
      rw [slotOffers, hadmits]
      rfl
    rw [hoffers]
    exact (and_iff_right rfl).symm

/-- What the next node offers is a word, or a candidate of a slot that admits the actor. -/
theorem mem_nodeOffers {s : State} {partialWord : List Char}
    (hmark : ¬ settings.longMark.toList <+: partialWord) :
    text ∈ nodeOffers s.pending partialWord s.context
      ↔ ∃ origin, OfferedAt settings c s partialWord origin text
          ∧ origin.admits s.context.actor = true := by
  constructor
  · intro htext
    unfold nodeOffers at htext
    split at htext
    next => exact absurd htext List.not_mem_nil
    next node rest hnext =>
      split at htext
      next hword =>
        rw [List.mem_singleton.mp htext]
        exact ⟨_, .word hmark hnext hword, rfl⟩
      next slot hslot =>
        obtain ⟨hadmits, hcandidate⟩ := mem_slotOffers.mp htext
        exact ⟨_, .candidate hmark hnext hslot hcandidate, hadmits⟩
  · rintro ⟨_, hoffered, hadmits⟩
    cases hoffered with
    | word _ hnext hword => simp [nodeOffers, hnext, hword]
    | candidate _ hnext hslot hcandidate =>
      simp only [nodeOffers, hnext, hslot]
      exact mem_slotOffers.mpr ⟨hadmits, hcandidate⟩
    | flagName hmark' => exact absurd hmark' hmark

/-- Behind the long mark the names of flags are offered, to whomever. -/
theorem mem_flagOffers_iff {s : State} {partialWord : List Char}
    (hmark : settings.longMark.toList <+: partialWord) :
    text ∈ flagOffers settings c
      ↔ ∃ f, OfferedAt settings c s partialWord (.flagName f) text := by
  rw [mem_flagOffers]
  constructor
  · rintro ⟨f, hf, long, hlong, rfl⟩
    exact ⟨f, .flagName hmark hf hlong⟩
  · rintro ⟨f, hoffered⟩
    cases hoffered with
    | flagName _ hf hlong => exact ⟨f, hf, _, hlong, rfl⟩

/-- The offers where a walk ended. -/
def offersAt (settings : Settings) (c : Command α) (s : State) (partialWord : List Char) :
    List String :=
  if settings.longMark.toList.isPrefixOf partialWord then flagOffers settings c
  else nodeOffers s.pending partialWord s.context

theorem mem_offersAt {s : State} {partialWord : List Char} :
    text ∈ offersAt settings c s partialWord
      ↔ ∃ origin, OfferedAt settings c s partialWord origin text
          ∧ (origin.admits s.context.actor = true ∨ ∃ f, origin = .flagName f) := by
  unfold offersAt
  split
  next hmark =>
    have hmark' := List.isPrefixOf_iff_prefix.mp hmark
    rw [mem_flagOffers_iff (s := s) hmark']
    constructor
    · rintro ⟨f, hoffered⟩
      exact ⟨_, hoffered, .inr ⟨f, rfl⟩⟩
    · rintro ⟨_, hoffered, _⟩
      obtain ⟨f, _, rfl⟩ := hoffered.exists_flag hmark'
      exact ⟨f, hoffered⟩
  next hmark =>
    have hmark' := fun h => hmark (List.isPrefixOf_iff_prefix.mpr h)
    rw [mem_nodeOffers hmark']
    constructor
    · rintro ⟨origin, hoffered, hadmits⟩
      exact ⟨origin, hoffered, .inl hadmits⟩
    · rintro ⟨origin, hoffered, hadmits | ⟨f, rfl⟩⟩
      · exact ⟨origin, hoffered, hadmits⟩
      · exact absurd rfl (hoffered.ne_flagName hmark' f)

/-- What a command offers, read off the end of its walk. -/
theorem ofCommand_eq {ended : Option State} {notes : List Note}
    (hwalk : walkHead settings c actor input = (ended, notes)) :
    (ofCommand settings c actor input).1
      = match ended with
        | none => []
        | some s =>
          (offersAt settings c s (splitPartial input.toList).2).filter
            (fits (splitPartial input.toList).2) := by
  unfold ofCommand
  unfold walkHead at hwalk
  dsimp only
  rw [hwalk]
  cases ended <;> rfl

/-- What one command offers. -/
theorem mem_ofCommand :
    text ∈ (ofCommand settings c actor input).1
      ↔ ∃ origin, Offered settings c actor input origin text
          ∧ (origin.admits actor = true ∨ ∃ f, origin = .flagName f) := by
  cases hwalk : walkHead settings c actor input with
  | mk ended notes =>
    rw [ofCommand_eq hwalk]
    cases ended with
    | none => simp [Offered, hwalk]
    | some s =>
      have hactor : s.context.actor = actor := walk_actor hwalk
      dsimp only
      rw [List.mem_filter, mem_offersAt, hactor]
      constructor
      · rintro ⟨⟨origin, hoffered, hadmits⟩, hfits⟩
        exact ⟨origin, ⟨s, notes, hwalk, hoffered, hfits⟩, hadmits⟩
      · rintro ⟨origin, ⟨s', notes', hwalk', hoffered, hfits⟩, hadmits⟩
        rw [hwalk] at hwalk'
        cases hwalk'
        exact ⟨⟨origin, hoffered, hadmits⟩, hfits⟩

/-- Exactly these texts are offered: those that go back to something in a command that is not
secret and admits the actor, where a slot has to admit the actor too, and a flag has not. -/
theorem mem_completions_iff (settings : Settings) (commands : List (Command α)) (actor : Actor)
    (input text : String) :
    text ∈ (ofCommands settings commands actor input).1
      ↔ ∃ c ∈ commands, c.metadata.secret = false
          ∧ admitted c.metadata.permission actor = true
          ∧ ∃ origin, Offered settings c actor input origin text
            ∧ (origin.admits actor = true ∨ ∃ f, origin = .flagName f) := by
  rw [mem_ofCommands]
  refine exists_congr fun c => and_congr_right fun _ => ?_
  rw [visible_iff, and_assoc, mem_ofCommand]

/-- A switch that admits nobody. -/
def silentForNobody : Slot :=
  .ofParameter
    { Parameter.asSwitch (.required "silent" .bool) .byParameter with
      permission := some fun _ => false } .bool

/-- `give <item>`, with that switch. -/
def givingSilently : Declaration Unit where
  paths := ["give <item>"]
  parameters := [.required "item" .string, silentForNobody.parameter]
  action := ()
  metadata := .none

/-- `give <item> [--silent]` -/
def giveSilently : Command Unit :=
  ⟨⟨0⟩, [⟨.word "give", false, false⟩,
      ⟨.slot (.ofParameter (.required "item" .string) .text), false, false⟩,
      ⟨.slot silentForNobody, true, true⟩], .none, ⟨(), []⟩⟩

/-- The name of a switch is offered to an actor whom the switch does not admit, and it goes back to
nothing that does. -/
theorem silent_offered_to_nobody :
    Compile.compile (.standard Unit) givingSilently "give <item>" ⟨0⟩ = .ok giveSilently
      ∧ "--silent" ∈ (ofCommands .standard [giveSilently] default "give --s").1
      ∧ ∀ origin, Offered .standard giveSilently default "give --s" origin "--silent" →
          origin.admits default = false := by
  have hcompile : Compile.compile (.standard Unit) givingSilently "give <item>" ⟨0⟩
      = .ok giveSilently := rfl
  refine ⟨hcompile, ?_, ?_⟩
  · refine mem_ofCommands.mpr ⟨_, List.mem_cons_self, rfl, ?_⟩
    decide
  · rintro origin ⟨s, notes, hwalk, hoffered, _⟩
    have hmark : Settings.standard.longMark.toList <+: (splitPartial "give --s".toList).2 := by
      decide
    obtain ⟨f, hf, rfl⟩ := hoffered.exists_flag hmark
    rw [List.mem_singleton.mp (show f ∈ [silentForNobody] from hf)]
    rfl

end CommandGrammar.Completion
