import CommandGrammar.Trial.Flags

/-!
# Reading an input with a command

Flags are taken out first, and the rest is matched node by node.  A node starts behind blanks and
must not be touched by what follows it.  The first node that fails ends the walk; its index tells
how far the command got.
-/

set_option autoImplicit false

namespace CommandGrammar

variable {α : Type}

namespace Walk

/-- Where a walk over the nodes stands. -/
structure State where
  cursor : Cursor
  context : Context
  notes : List Note
  /-- the index of the last node that was tried -/
  furthest : Nat

/-- The result of a step and where the walk then stands. -/
abbrev Step : Type := Except CommandError Unit × State

/-- The site of a failure at a node. -/
def site (c : Command α) (index : Nat) (node : Node) (unread : List Char) : Site :=
  match node.segment with
  | .word text => .literal c.path text index
  | .slot s => .parameter c.path s.name index (String.ofList unread)

/-- Reads the segment of a node at the cursor. -/
def readSegment (segment : Segment) (s : State) : Step :=
  match segment with
  | .word text =>
    let (word, after) := s.cursor.readWord
    if wordMatches text word then (.ok (), { s with cursor := after })
    else (.error (.ofFault (.literalMismatch text (String.ofList word))), s)
  | .slot slot =>
    let parsed := slot.parse s.cursor s.context
    let after := { s with cursor := parsed.cursor, notes := s.notes ++ parsed.notes }
    match parsed.result with
    | .ok value => (.ok (), { after with context := after.context.bind slot.name value })
    | .error e => (.error e, after)

/-- Refuses a place in the middle of a word. -/
def checkSeparated (s : State) : Step :=
  if !s.cursor.atEnd && !s.cursor.atBlank then (.error (.malformed .missingBlank), s)
  else (.ok (), s)

/-- Reads one node. -/
def readNode (c : Command α) (index : Nat) (node : Node) (s : State) : Step :=
  let start := { s with cursor := s.cursor.skipBlanks, furthest := index }
  let failAt (e : CommandError) : CommandError := e.locate (site c index node start.cursor.rest)
  match readSegment node.segment start with
  | (.error e, s) => (.error (failAt e), s)
  | (.ok (), s) =>
    match checkSeparated s with
    | (.error e, s) => (.error (failAt e), s)
    | (.ok (), s) => (.ok (), s)

/-- Reads the nodes that are matched by place; `index` is that of the first. -/
def run (c : Command α) (index : Nat) : List Node → State → Step
  | [], s => (.ok (), s)
  | node :: rest, s =>
    if !node.isPositional then run c (index + 1) rest s
    else
      match readNode c index node s with
      | (.error e, s) => (.error e, s)
      | (.ok (), s) => run c (index + 1) rest s

end Walk

/-- The outcome of reading an input with a command, before any condition is asked: the unread text
or an error, the context, and how far the walk got. -/
structure Reading (α : Type) where
  command : Command α
  result : Except CommandError Cursor
  context : Context
  furthest : Nat
  notes : List Note

namespace Reading

/-- Reads what is left of an input once the flags are out. -/
def ofRest (c : Command α) (rest : Cursor) (context : Context) (notes : List Note) : Reading α :=
  match Walk.run c 0 c.nodes ⟨rest, context, notes, 0⟩ with
  | (.error e, s) => ⟨c, .error e, s.context, s.furthest, s.notes⟩
  | (.ok (), s) => ⟨c, .ok s.cursor, s.context, s.furthest, s.notes⟩

/-- Reads an input with a command. -/
def ofInput (settings : Settings) (c : Command α) (actor : Actor) (input : String) :
    Option (Reading α) :=
  let context := Context.start actor c.info input
  let cursor := Cursor.ofText input.toList
  if c.hasFlags then
    match FlagScan.extract settings c cursor context with
    | none => none
    | some ⟨.error e, context, notes⟩ => some ⟨c, .error e, context, 0, notes⟩
    | some ⟨.ok rest, context, notes⟩ => some (ofRest c rest context notes)
  else some (ofRest c cursor context [])

end Reading

end CommandGrammar
