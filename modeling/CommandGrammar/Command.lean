import CommandGrammar.Node
import CommandGrammar.Resolution

/-!
# Compiled commands

A command is a chain of nodes, the metadata of its declaration, and a body: the host's action with
the ambient parameters that are resolved just before it runs.  Everything else is read off the
chain: the path, the number of required nodes, the flags.
-/

set_option autoImplicit false

namespace CommandGrammar

/-- An action with its ambient parameters, in the order of their declaration. -/
structure Body (α : Type) where
  action : α
  ambients : List (Parameter × Ambient α)

/-- A compiled command. -/
structure Command (α : Type) where
  id : CommandId
  nodes : List Node
  metadata : Metadata
  body : Body α

namespace Command

variable {α : Type}

/-! ## Read off the chain -/

/-- The word at the front. -/
def name (c : Command α) : String :=
  match c.nodes with
  | [] => ""
  | n :: _ => n.name

/-- How many nodes there are. -/
def size (c : Command α) : Nat := c.nodes.length

/-- Rendered nodes with a space between any two. -/
def renderNodes (nodes : List Node) : List Char := Text.joinWith [' '] (nodes.map Node.render)

/-- The rendered grammar. -/
def path (c : Command α) : String := String.ofList (renderNodes c.nodes)

/-- The usage line: the declared one, or the path. -/
def usage (c : Command α) : String := c.metadata.usage.getD c.path

/-- The nodes before the last word of a chain. -/
def beforeLastWord (nodes : List Node) : List Node :=
  ((nodes.reverse.dropWhile fun n => !n.isWord).drop 1).reverse

/-- The rendered nodes before the last word. -/
def siblingPath (c : Command α) : List Char := renderNodes (beforeLastWord c.nodes)

/-- How many nodes are optional slots. -/
def optionalCount (c : Command α) : Nat := c.nodes.countP Node.isOptional

/-- How many nodes are words or required slots. -/
def requiredCount (c : Command α) : Nat := c.size - c.optionalCount

/-- The flags and switches. -/
def flags (c : Command α) : List Slot :=
  (c.nodes.filterMap Node.slot?).filter fun s => !s.isPositional

/-- The words and the slots that are matched by place. -/
def positional (c : Command α) : List Node := c.nodes.filter Node.isPositional

/-- Whether there is a flag or a switch. -/
def hasFlags (c : Command α) : Bool := c.nodes.any fun n => !n.isPositional

/-- The last node that is matched by place. -/
def lastPositional? (c : Command α) : Option Node := c.positional.getLast?

/-- The body, which the last node carries. -/
def body? (c : Command α) : Option (Body α) :=
  match c.nodes.getLast? with
  | some n => if n.mayEnd then some c.body else none
  | none => none

/-- The last index from `i` on of a slot with the given name. -/
def slotIndexFrom (name : String) (i : Nat) : List Node → Option Nat
  | [] => none
  | n :: rest =>
    match slotIndexFrom name (i + 1) rest with
    | some j => some j
    | none => if !n.isWord && decide (n.name = name) then some i else none

/-- The index of a parameter's node; of several with one name, the last. -/
def indexOf? (c : Command α) (name : String) : Option Nat := slotIndexFrom name 0 c.nodes

/-- The slot of a parameter; of several with one name, the last. -/
def slot? (c : Command α) (name : String) : Option Slot :=
  match c.indexOf? name with
  | some i => (c.nodes[i]?).bind Node.slot?
  | none => none

/-- What a trial shows of the command. -/
def info (c : Command α) : CommandInfo := ⟨c.id, c.path, c.metadata⟩

/-! ## Relations between commands -/

/-- Whether two commands differ at most from the last word on, in the part before it up to ASCII
case. -/
def isSiblingOf (a b : Command α) : Bool :=
  decide (a.id ≠ b.id) && Text.sameFolded a.siblingPath b.siblingPath

/-- Whether the path of `a` goes on, with a space, where the path of `b` ends. -/
def isChildOf (a b : Command α) : Bool :=
  decide (a.id ≠ b.id) && (renderNodes b.nodes ++ [' ']).isPrefixOf (renderNodes a.nodes)

end Command

end CommandGrammar
