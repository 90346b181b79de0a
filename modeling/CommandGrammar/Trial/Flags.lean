import CommandGrammar.Command
import CommandGrammar.Settings
import CommandGrammar.Text.Excision

/-!
# Scanning for flags

Flags and switches may stand anywhere in the input, so one pass from left to right takes them out
before the rest is matched by place.  The pass goes from word to word: a long name or a cluster of
shorthands is followed by the values of the flags it names, a quoted text is passed over as one
word, and a bare long mark ends the pass.  What was recognised is cut out of the text.  A flag that
occurs twice keeps its last value; one that does not occur gets the value of its absence.

A flag at the very end of the input reads its default text, which is put there for it, and the
pass goes on behind what was read.  A default text that names a flag can keep the pass going for
ever, so `scan` counts its turns, and `none` stands for a pass that is still under way when the
count runs out.
-/

set_option autoImplicit false

namespace CommandGrammar

variable {α : Type}

namespace Command

/-- The flag or switch with a long name, in any case; of several, the first. -/
def flagByLong? (c : Command α) (name : List Char) : Option Slot :=
  c.flags.find? fun f =>
    match f.longName? with
    | some long => Text.sameFolded long.toList name
    | none => false

/-- The flag or switch with a shorthand; of several, the first. -/
def flagByShort? (c : Command α) (letter : Char) : Option Slot :=
  c.flags.find? fun f => decide (f.shorthand? = some letter)

/-- The site of a failure at a flag. -/
def flagSite (c : Command α) (f : Slot) (unread : List Char) : Site :=
  .parameter c.path f.name ((c.indexOf? f.name).getD 0) (String.ofList unread)

/-- The error for a name that no flag has. -/
def unknownFlag (c : Command α) (name : List Char) (shorthand : Bool) : CommandError :=
  (CommandError.ofFault (.unknownFlag (String.ofList name) shorthand)).locate (.flags c.path)

end Command

namespace FlagScan

/-- Where a pass stands. -/
structure State where
  cursor : Cursor
  context : Context
  notes : List Note
  /-- what is to be cut out -/
  cuts : List Text.ByteRange
  /-- the names of the parameters that have occurred -/
  seen : List String

namespace State

/-- Binds the value of a flag that has occurred. -/
def resolve (s : State) (name : String) (value : Value) : State :=
  { s with context := s.context.bind name value, seen := s.seen ++ [name] }

/-- Cuts out what stands between a place and the cursor. -/
def cutFrom (s : State) (start : Nat) : State :=
  { s with cuts := s.cuts ++ [⟨start, s.cursor.position⟩] }

end State

/-- The result of a step and where the pass then stands. -/
abbrev Step (β : Type) : Type := Except CommandError β × State

/-- Reads what a recognised flag or switch needs at the cursor. -/
def readFlag (c : Command α) (f : Slot) (s : State) : Step Unit :=
  let failAt (e : CommandError) : CommandError := e.locate (c.flagSite f s.cursor.rest)
  if f.isSwitch then
    if f.admits s.context.actor then (.ok (), s.resolve f.name (.bool true))
    else (.error (failAt (.ofFault (.notPermitted f.name))), s)
  else if !s.cursor.atEnd && !s.cursor.atBlank then
    (.error (failAt (.malformed .missingBlank)), s)
  else
    let parsed := f.parse s.cursor.skipBlanks s.context
    let after := { s with cursor := parsed.cursor, notes := s.notes ++ parsed.notes }
    match parsed.result with
    | .ok value => (.ok (), after.resolve f.name value)
    | .error e => (.error (failAt e), after)

/-- Reads what each shorthand of a cluster needs, in order. -/
def readCluster (c : Command α) : List Char → State → Step Unit
  | [], s => (.ok (), s)
  | letter :: rest, s =>
    match c.flagByShort? letter with
    | none => (.error (c.unknownFlag [letter] true), s)
    | some f =>
      match readFlag c f s with
      | (.error e, s) => (.error e, s)
      | (.ok (), s) => readCluster c rest s

/-- Reads what a long name needs. -/
def readLong (c : Command α) (name : List Char) (s : State) : Step Unit :=
  match c.flagByLong? name with
  | none => (.error (c.unknownFlag name false), s)
  | some f => readFlag c f s

/-- Passes over a quoted text, or over one word where the quoting is wrong. -/
def passQuoted (c : Cursor) : Cursor :=
  match c.readText with
  | (.ok _, after) => after
  | (.error _, _) => c.readWord.2

/-- One turn of the pass at a word; the flag tells whether the pass is over. -/
def turnAtWord (settings : Settings) (c : Command α) (s : State) : Step Bool :=
  let behind := { s with cursor := s.cursor.readWord.2 }
  let goOn (step : Step Unit) : Step Bool :=
    match step with
    | (.error e, after) => (.error e, after)
    | (.ok (), after) => (.ok false, after.cutFrom s.cursor.position)
  match settings.role s.cursor.peekWord with
  | .endMark => (.ok true, behind.cutFrom s.cursor.position)
  | .long name => goOn (readLong c name behind)
  | .cluster letters => goOn (readCluster c letters behind)
  | .quoted => (.ok false, { s with cursor := passQuoted s.cursor })
  | .plain => (.ok false, behind)

/-- One turn of the pass. -/
def turn (settings : Settings) (c : Command α) (s : State) : Step Bool :=
  let s := { s with cursor := s.cursor.skipBlanks }
  if s.cursor.atEnd then (.ok true, s) else turnAtWord settings c s

/-- The pass, with at most the given number of turns. -/
def scan (settings : Settings) (c : Command α) : Nat → State → Option (Step Unit)
  | 0, _ => none
  | turns + 1, s =>
    match turn settings c s with
    | (.error e, s) => some (.error e, s)
    | (.ok true, s) => some (.ok (), s)
    | (.ok false, s) => scan settings c turns s

/-- Resolves the flags that have not occurred, in the order of their nodes. -/
def resolveAbsent (c : Command α) : List Slot → State → Step Unit
  | [], s => (.ok (), s)
  | f :: rest, s =>
    if f.name ∈ s.seen then resolveAbsent c rest s
    else
      let (result, notes) := f.absentValue s.context
      let after := { s with notes := s.notes ++ notes }
      match result with
      | .error e => (.error (e.locate (c.flagSite f [])), after)
      | .ok value => resolveAbsent c rest { after with context := after.context.bind f.name value }

/-- How many characters the default texts of a command's flags have. -/
def defaultSize (c : Command α) : Nat :=
  c.flags.foldr (fun f size => (f.parameter.defaultText.getD "").toList.length + size) 0

/-- Turns that are left to types and validators which look at the arguments bound before, and so
may end a pass that has come to one place many times.  No machine takes so many. -/
def spareTurns : Nat := Nat.pow 2 60

/-- A number of turns that a pass over `input` does not need if it comes to an end.  A default text
is put in only where nothing is left to read, so the place of its flag, in the input or in another
default text, decides how the pass goes on as far as the text is concerned, and a place that comes
up twice comes up for ever unless the arguments matter.  Between two such places each turn takes a
character. -/
def turnLimit (c : Command α) (input : Cursor) : Nat :=
  Nat.pow (input.rest.length + defaultSize c + 2) 2 + spareTurns

/-- The outcome of taking flags out of an input: the text that is left, or an error; the context;
and the notes. -/
structure Outcome where
  result : Except CommandError Cursor
  context : Context
  notes : List Note

/-- Takes the flags of a command out of an input. -/
def extract (settings : Settings) (c : Command α) (input : Cursor) (context : Context) :
    Option Outcome :=
  match scan settings c (turnLimit c input) ⟨input, context, [], [], []⟩ with
  | none => none
  | some (.error e, s) => some ⟨.error e, s.context, s.notes⟩
  | some (.ok (), s) =>
    match resolveAbsent c c.flags s with
    | (.error e, s) => some ⟨.error e, s.context, s.notes⟩
    | (.ok (), s) =>
      some ⟨.ok (.ofText (Text.withoutRanges s.cursor.source s.cuts)), s.context, s.notes⟩

end FlagScan

end CommandGrammar
