import CommandGrammar.Command.Compile
import CommandGrammar.Session.Dispatcher

/-!
# The registry

Registered commands stand in the order of their rank, and among equals in the order of their
registration.  Every hook is asked before a command is added, also after one has said no, and told
after one has been removed.  A declaration is compiled at all its paths before any of them is
registered, so a faulty one changes nothing.
-/

set_option autoImplicit false

namespace CommandGrammar

variable {α σ : Type}

/-- Puts a command before the first that it ranks higher than. -/
def insertRanked (c : Command α) : List (Command α) → List (Command α)
  | [] => [c]
  | d :: rest => if c.rank d = .lt then c :: d :: rest else d :: insertRanked c rest

namespace Dispatcher

/-- Asks hooks whether a command may be added. -/
def askRegistering (c : Command α) : List (Hook α σ) → σ → Bool × σ
  | [], host => (true, host)
  | hook :: rest, host =>
    let (allowed, host) := hook.registering c host
    let (later, host) := askRegistering c rest host
    (allowed && later, host)

/-- Adds a compiled command, unless a hook objects. -/
def register (d : Dispatcher α σ) (c : Command α) (s : Session α σ) :
    Option (Command α) × Session α σ :=
  let (allowed, host) := askRegistering c d.hooks s.standing.host
  let asked := { s with standing := { s.standing with host := host } }
  if allowed then (some c, { asked with commands := insertRanked c asked.commands })
  else (none, asked)

/-- Adds compiled commands in order and returns those that were added. -/
def registerEach (d : Dispatcher α σ) :
    List (Command α) → Session α σ → List (Command α) × Session α σ
  | [], s => ([], s)
  | c :: rest, s =>
    let (added, s) := d.register c s
    let (others, s) := registerEach d rest s
    (added.toList ++ others, s)

/-- Compiles a declaration and registers the commands. -/
def registerDeclaration (d : Dispatcher α σ) (declaration : Declaration α) (s : Session α σ) :
    Except GrammarError (List (Command α)) × Session α σ :=
  match Compile.compileAll d.pipeline declaration s.nextId with
  | .error e => (.error e, s)
  | .ok compiled =>
    let (added, s) := d.registerEach compiled { s with nextId := s.nextId + compiled.length }
    (.ok added, s)

/-- Tells every hook that commands have been removed. -/
def tellUnregistered (d : Dispatcher α σ) (removed : List (Command α)) (s : Session α σ) :
    Session α σ :=
  s.mapHost fun host =>
    removed.foldl
      (fun host c => d.hooks.foldl (fun host hook => hook.unregistered c host) host) host

/-- Removes the commands that satisfy `p`. -/
def unregisterIf (d : Dispatcher α σ) (p : Command α → Bool) (s : Session α σ) :
    List (Command α) × Session α σ :=
  let removed := s.commands.filter p
  (removed, d.tellUnregistered removed { s with commands := s.commands.filter fun c => !p c })

/-- Removes the first command with an identity. -/
def unregister (d : Dispatcher α σ) (id : CommandId) (s : Session α σ) :
    Option (Command α) × Session α σ :=
  match s.command? id with
  | none => (none, s)
  | some c =>
    (some c,
      d.tellUnregistered [c] { s with commands := s.commands.eraseP fun c => decide (c.id = id) })

end Dispatcher

namespace Session

/-- The commands whose first word is the first word of a line, up to ASCII case. -/
def candidates (s : Session α σ) (input : String) : List (Command α) :=
  match Text.leadingWord? input.toList with
  | none => []
  | some word => s.commands.filter fun c => Text.sameFolded c.name.toList word

/-- The registered siblings of a command. -/
def siblings (s : Session α σ) (c : Command α) : List (Command α) :=
  s.commands.filter fun other => other.isSiblingOf c

/-- The registered commands that extend a command. -/
def children (s : Session α σ) (c : Command α) : List (Command α) :=
  s.commands.filter fun other => other.isChildOf c

end Session

end CommandGrammar
