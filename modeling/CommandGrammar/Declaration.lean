import CommandGrammar.Context
import CommandGrammar.Parameter

/-!
# Declarations

What the author of a command writes down: one or more paths, the parameters, metadata, and an
action.  Each path becomes a command of its own, so further paths are aliases.  Actions are named
by the host; the library never looks inside a name.
-/

set_option autoImplicit false

namespace CommandGrammar

/-- A declared command. -/
structure Declaration (α : Type) where
  paths : List String
  parameters : List Parameter
  action : α
  metadata : Metadata

namespace Declaration

variable {α : Type}

/-- A declaration with one path and nothing else. -/
def ofPath (path : String) (action : α) : Declaration α := ⟨[path], [], action, .none⟩

/-- Adds an alias. -/
def withPath (d : Declaration α) (path : String) : Declaration α :=
  { d with paths := d.paths ++ [path] }

/-- Adds a parameter behind the others. -/
def withParameter (d : Declaration α) (p : Parameter) : Declaration α :=
  { d with parameters := d.parameters ++ [p] }

/-- Sets an explicit priority. -/
def withPriority (d : Declaration α) (priority : Int) : Declaration α :=
  { d with metadata := { d.metadata with priority := some priority } }

/-- Sets the low-priority mark. -/
def withLowPriority (d : Declaration α) : Declaration α :=
  { d with metadata := { d.metadata with lowPriority := true } }

/-- Hides the command from completion. -/
def asSecret (d : Declaration α) : Declaration α :=
  { d with metadata := { d.metadata with secret := true } }

/-- Sets a description. -/
def withDescription (d : Declaration α) (description : String) : Declaration α :=
  { d with metadata := { d.metadata with description := some description } }

/-- Sets the usage line. -/
def withUsage (d : Declaration α) (usage : String) : Declaration α :=
  { d with metadata := { d.metadata with usage := some usage } }

/-- Requires a permission. -/
def withPermission (d : Declaration α) (permission : Permission) : Declaration α :=
  { d with metadata := { d.metadata with permission := some permission } }

/-- Sets the time between two uses by one actor. -/
def withCooldown (d : Declaration α) (cooldown : Duration) : Declaration α :=
  { d with metadata := { d.metadata with cooldown := some cooldown } }

end Declaration

end CommandGrammar
