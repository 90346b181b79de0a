import CommandGrammar.Trial.Flags

/-!
# Completion

A line is cut into its head, which ends behind the last blank, and the partial word after it.
Each visible command walks its positional nodes over the head; flags in the head are passed over
with as many words as they have values.  Where the walk fits, the node that comes next offers
candidates for the partial word, or the flags do if the partial word begins with the long mark.
What is offered begins like the partial word, up to ASCII case; the offers of all commands are
sorted and each is listed once.
-/

set_option autoImplicit false

namespace CommandGrammar.Completion

variable {α : Type}

/-! ## Cutting the line -/

/-- The part of a line up to and with its last blank, and the rest. -/
def splitPartial (line : List Char) : List Char × List Char :=
  let back := line.reverse
  ((back.dropWhile Text.isInk).reverse, (back.takeWhile Text.isInk).reverse)

theorem splitPartial_append (line : List Char) :
    (splitPartial line).1 ++ (splitPartial line).2 = line := by
  unfold splitPartial
  rw [← List.reverse_append, List.takeWhile_append_dropWhile, List.reverse_reverse]

/-- Whether a candidate begins like the partial word. -/
def fits (partialWord : List Char) (candidate : String) : Bool :=
  Text.startsFolded candidate.toList partialWord

/-! ## Walking over the head -/

/-- Where a walk over the head stands. -/
structure State where
  cursor : Cursor
  context : Context
  notes : List Note
  /-- the nodes that are still to come -/
  pending : List Node
  /-- a bare long mark has been passed -/
  flagsEnded : Bool

/-- How many values the flags of a cluster take; unknown letters take none. -/
def clusterValues (c : Command α) (letters : List Char) : Nat :=
  ((letters.filterMap c.flagByShort?).filter fun f => !f.isSwitch).length

/-- How many values a long flag takes; an unknown one takes none. -/
def longValues (c : Command α) (name : List Char) : Nat :=
  match c.flagByLong? name with
  | some f => if f.isSwitch then 0 else 1
  | none => 0

/-- Passes over a number of values, each a word or a quoted text. -/
def passValues : Nat → Cursor → Cursor
  | 0, c => c
  | n + 1, c => passValues n (FlagScan.passQuoted c.skipBlanks)

/-- Passes over a flag at the cursor with its values; nothing if the word is no flag. -/
def passFlag? (settings : Settings) (c : Command α) (s : State) : Option State :=
  let behind := s.cursor.readWord.2
  match settings.role s.cursor.peekWord with
  | .endMark => some { s with cursor := behind, flagsEnded := true }
  | .long name => some { s with cursor := passValues (longValues c name) behind }
  | .cluster letters => some { s with cursor := passValues (clusterValues c letters) behind }
  | .quoted => none
  | .plain => none

/-- Walks over one word of the head.  Nothing comes of a word that does not match, of a slot that
takes the rest of the input, or of a value that does not read; the notes are kept. -/
def passNode (s : State) : Option State × List Note :=
  match s.pending with
  | [] => (none, s.notes)
  | node :: rest =>
    match node.segment with
    | .word text =>
      let (word, after) := s.cursor.readWord
      if wordMatches text word then (some { s with cursor := after, pending := rest }, s.notes)
      else (none, s.notes)
    | .slot slot =>
      if slot.isGreedy then (none, s.notes)
      else
        let parsed := slot.parse s.cursor s.context
        let notes := s.notes ++ parsed.notes
        match parsed.result with
        | .error _ => (none, notes)
        | .ok value =>
          (some { s with
            cursor := parsed.cursor, pending := rest, notes := notes,
            context := s.context.bind slot.name value }, notes)

/-- One turn of the walk at a word. -/
def turn (settings : Settings) (c : Command α) (s : State) : Option State × List Note :=
  match if s.flagsEnded then none else passFlag? settings c s with
  | some s => (some s, s.notes)
  | none => passNode s

/-- Walks over the head.  A turn passes a node or takes a character, so there are no more of them
than nodes and characters together. -/
def walk (settings : Settings) (c : Command α) : Nat → State → Option State × List Note
  | 0, s => (none, s.notes)
  | turns + 1, s =>
    let s := { s with cursor := s.cursor.skipBlanks }
    if s.cursor.atEnd then (some s, s.notes)
    else
      match turn settings c s with
      | (some s, _) => walk settings c turns s
      | (none, notes) => (none, notes)

/-! ## Offers -/

/-- The names of all flags behind the long mark. -/
def flagOffers (settings : Settings) (c : Command α) : List String :=
  c.flags.filterMap fun f => f.longName?.map fun long => settings.longMark ++ long

/-- What a slot offers; nothing to an actor whom it does not admit. -/
def slotOffers (s : Slot) (partialWord : List Char) (context : Context) : List String :=
  if !s.admits context.actor then []
  else
    match s.parameter.suggester with
    | some suggest => suggest partialWord context
    | none => s.type.suggestions

/-- What the next node offers. -/
def nodeOffers (pending : List Node) (partialWord : List Char) (context : Context) :
    List String :=
  match pending with
  | [] => []
  | node :: _ =>
    match node.segment with
    | .word text => [text]
    | .slot s => slotOffers s partialWord context

/-- What one command offers, and the notes of its walk. -/
def ofCommand (settings : Settings) (c : Command α) (actor : Actor) (input : String) :
    List String × List Note :=
  let (head, partialWord) := splitPartial input.toList
  let start : State :=
    ⟨.ofText head, .start actor c.info input, [], c.positional, false⟩
  match walk settings c (head.length + c.size + 1) start with
  | (none, notes) => ([], notes)
  | (some s, notes) =>
    let offers :=
      if settings.longMark.toList.isPrefixOf partialWord then flagOffers settings c
      else nodeOffers s.pending partialWord s.context
    (offers.filter (fits partialWord), notes)

/-- Whether a command takes part: it is not secret, and its permission admits the actor. -/
def visible (c : Command α) (actor : Actor) : Bool :=
  !c.metadata.secret && admitted c.metadata.permission actor

/-! ## All commands -/

/-- Sorts by code points and lists each text once. -/
def sortedUnique (texts : List String) : List String :=
  (texts.mergeSort fun a b => decide (a ≤ b)).eraseReps

/-- The completions of a line, and the notes of the walks. -/
def ofCommands (settings : Settings) (commands : List (Command α)) (actor : Actor)
    (input : String) : List String × List Note :=
  let all := (commands.filter fun c => visible c actor).map fun c =>
    ofCommand settings c actor input
  (sortedUnique (all.map Prod.fst).flatten, (all.map Prod.snd).flatten)

end CommandGrammar.Completion
