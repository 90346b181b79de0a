import CommandGrammar.ValueType.Basic

/-!
# Grammar nodes

A compiled command is a chain of nodes.  A node is a word that must occur in the input or a *slot*
that a parameter fills.  The chain marks its last node, and marks the nodes at which the command
may end: the last one and every optional one.
-/

set_option autoImplicit false

namespace CommandGrammar

/-- A parameter with the type that reads it.  A bracketed placeholder makes a slot optional even
where the parameter is not. -/
structure Slot where
  parameter : Parameter
  type : ValueType
  isOptional : Bool

namespace Slot

/-- The slot of a parameter. -/
def ofParameter (p : Parameter) (type : ValueType) : Slot := ⟨p, type, p.isOptional⟩

/-- The parameter's name. -/
def name (s : Slot) : String := s.parameter.name

/-- Whether the slot takes the rest of the input. -/
def isGreedy (s : Slot) : Bool := s.type.isGreedy

/-- Whether the parameter is a switch. -/
def isSwitch (s : Slot) : Bool := s.parameter.matching.isSwitch

/-- Whether the parameter is a flag with a value. -/
def isFlag (s : Slot) : Bool := s.parameter.matching.isFlag

/-- Whether the parameter is matched by place. -/
def isPositional (s : Slot) : Bool := s.parameter.isPositional

/-- The long name of a flag or a switch. -/
def longName? (s : Slot) : Option String := s.parameter.longName?

/-- The shorthand of a flag or a switch. -/
def shorthand? (s : Slot) : Option Char := s.parameter.shorthand?

/-- Whether the parameter's permission admits an actor. -/
def admits (s : Slot) (actor : Actor) : Bool := admitted s.parameter.permission actor

/-! ## Reading -/

/-- Reads the slot at the cursor.  The permission is checked first.  Where the input has ended, a
required slot fails, and an optional one reads its default text, which is added to the source, or
is nil. -/
def parse (s : Slot) (c : Cursor) (context : Context) : Parsed :=
  if !s.admits context.actor then ⟨.error (.ofFault (.notPermitted s.name)), c, []⟩
  else if c.atEnd then
    if !s.isOptional then ⟨.error (.ofFault (.missingArgument s.name)), c, []⟩
    else
      match s.parameter.defaultText with
      | some text => s.type.parse (c.extend text.toList) context
      | none => ⟨.ok .nil, c, []⟩
  else s.type.parse c context

/-- The value of a slot that the input does not mention: false for a switch, else what the default
text reads as, else nil where the slot is optional.  Leaving a parameter out needs no
permission. -/
def absentValue (s : Slot) (context : Context) : Except CommandError Value × List Note :=
  if s.isSwitch then (.ok (.bool false), [])
  else
    match s.parameter.defaultText with
    | some text =>
      let parsed := s.type.parse (.ofText text.toList) context
      (parsed.result, parsed.notes)
    | none =>
      if s.isOptional then (.ok .nil, []) else (.error (.ofFault (.missingArgument s.name)), [])

/-! ## Rendering -/

/-- How the slot is written in a path: `<n>`, `--flag <n>`, `--switch`, with brackets around what
may be left out; `[n]` for an optional positional one. -/
def render (s : Slot) : List Char :=
  let placeholder := '<' :: s.name.toList ++ ['>']
  match s.longName? with
  | none => if s.isOptional then '[' :: s.name.toList ++ [']'] else placeholder
  | some long =>
    let body :=
      if s.isSwitch then ['-', '-'] ++ long.toList
      else ['-', '-'] ++ long.toList ++ ' ' :: placeholder
    if s.isOptional || s.isSwitch then '[' :: body ++ [']'] else body

end Slot

/-- What a node matches. -/
inductive Segment where
  | word (text : String)
  | slot (s : Slot)

/-- A node of a chain. -/
structure Node where
  segment : Segment
  /-- it is the last of its chain -/
  isLast : Bool
  /-- the command may end here -/
  mayEnd : Bool

namespace Node

/-- The word or the parameter's name. -/
def name (n : Node) : String :=
  match n.segment with
  | .word text => text
  | .slot s => s.name

/-- Whether the node is a word. -/
def isWord (n : Node) : Bool :=
  match n.segment with
  | .word _ => true
  | .slot _ => false

/-- The slot, unless the node is a word. -/
def slot? (n : Node) : Option Slot :=
  match n.segment with
  | .word _ => none
  | .slot s => some s

/-- Whether the node is an optional slot. -/
def isOptional (n : Node) : Bool :=
  match n.segment with
  | .word _ => false
  | .slot s => s.isOptional

/-- Whether the node is matched by place. -/
def isPositional (n : Node) : Bool :=
  match n.segment with
  | .word _ => true
  | .slot s => s.isPositional

/-- How the node is written in a path. -/
def render (n : Node) : List Char :=
  match n.segment with
  | .word text => text.toList
  | .slot s => s.render

/-- Which of two final nodes is preferred; `lt` is for the first.  A word beats a slot, a required
slot beats an optional one, and then the types' preferences decide. -/
def precedence (a b : Node) : Ordering :=
  match a.segment, b.segment with
  | .word _, .word _ => .eq
  | .word _, .slot _ => .lt
  | .slot _, .word _ => .gt
  | .slot s, .slot t =>
    (compare s.isOptional.toNat t.isOptional.toNat).then
      (compare s.type.preference.rank t.type.preference.rank)

end Node

/-- Whether an input word is the word of a literal node. -/
def wordMatches (literal : String) (word : List Char) : Bool :=
  Text.sameFolded literal.toList word

end CommandGrammar
