import CommandGrammar.Actor
import CommandGrammar.Arguments
import CommandGrammar.Duration
import CommandGrammar.Error

/-!
# The context of a trial

While one command is tried against an input, everything that may look around sees the same four
things: the actor, the command that is being tried, the input line, and the arguments resolved so
far.  Of the command it sees identity, path and metadata.
-/

set_option autoImplicit false

namespace CommandGrammar

/-- What a declaration says about a command besides its grammar. -/
structure Metadata where
  description : Option String
  usage : Option String
  /-- an explicit priority; the lower wins -/
  priority : Option Int
  /-- loses to every command without the mark -/
  lowPriority : Bool
  /-- not offered by completion -/
  secret : Bool
  /-- how long an actor has to wait between two uses -/
  cooldown : Option Duration
  permission : Option Permission

namespace Metadata

/-- No metadata. -/
def none : Metadata :=
  ⟨Option.none, Option.none, Option.none, false, false, Option.none, Option.none⟩

instance : Inhabited Metadata := ⟨none⟩

end Metadata

/-- The identity of a compiled command.  Cooldowns and removals go by it. -/
structure CommandId where
  number : Nat
  deriving DecidableEq, Repr, Inhabited

/-- What a trial shows of its command. -/
structure CommandInfo where
  id : CommandId
  path : String
  metadata : Metadata
  deriving Inhabited

/-- What is known while a command is tried. -/
structure Context where
  actor : Actor
  command : CommandInfo
  input : String
  arguments : Arguments

namespace Context

/-- The context at the start of a trial. -/
def start (actor : Actor) (command : CommandInfo) (input : String) : Context :=
  ⟨actor, command, input, .empty⟩

/-- Adds a resolved argument. -/
def bind (c : Context) (name : String) (value : Value) : Context :=
  { c with arguments := c.arguments.insert name value }

/-- Forgets all arguments. -/
def clear (c : Context) : Context := { c with arguments := .empty }

/-- The site of a failure in a condition or in the action. -/
def executing (c : Context) : Site := .executing c.command.path

@[simp] theorem bind_actor (c : Context) (name : String) (value : Value) :
    (c.bind name value).actor = c.actor := rfl

@[simp] theorem bind_command (c : Context) (name : String) (value : Value) :
    (c.bind name value).command = c.command := rfl

@[simp] theorem bind_input (c : Context) (name : String) (value : Value) :
    (c.bind name value).input = c.input := rfl

@[simp] theorem clear_arguments (c : Context) : c.clear.arguments = .empty := rfl

end Context

end CommandGrammar
