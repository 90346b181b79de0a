import CommandGrammar.Value

/-!
# Actors

Whoever issues a command: a player, an operator, a script.  The library knows an identity, by
which cooldowns are kept, and a name.  What an actor may do is decided by permissions, which are
predicates of the host's own.
-/

set_option autoImplicit false

namespace CommandGrammar

/-- Someone who issues commands. -/
structure Actor where
  id : ActorId
  name : String
  deriving DecidableEq, Repr, Inhabited

/-- Decides whether an actor may use a command or a parameter. -/
abbrev Permission : Type := Actor → Bool

/-- Whether an optional permission admits an actor; its absence admits everyone. -/
def admitted (permission : Option Permission) (actor : Actor) : Bool :=
  match permission with
  | some p => p actor
  | none => true

@[simp] theorem admitted_none (actor : Actor) : admitted none actor = true := rfl

@[simp] theorem admitted_some (p : Permission) (actor : Actor) :
    admitted (some p) actor = p actor :=
  rfl

end CommandGrammar
