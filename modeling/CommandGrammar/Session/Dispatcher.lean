import CommandGrammar.Declaration
import CommandGrammar.Session.Condition
import CommandGrammar.Trial.Basic

/-!
# Dispatchers

Everything that stays fixed while a session runs: settings, the rules for types, conditions, hooks,
handlers, and what the host's actions and derivations do.

An action is described by a *script*: it may change and look at the host's state, dispatch another
line, register and remove commands, and look at what is registered, in any order, before it gives
its result.
-/

set_option autoImplicit false

namespace CommandGrammar

/-! ## Scripts -/

/-- A dispatch that ran its command to the end. -/
structure Dispatched (α : Type) where
  command : Command α
  /-- the arguments of the command, ambient ones included -/
  arguments : Arguments
  response : Value

/-- What a dispatch answers. -/
abbrev Answer (α : Type) : Type := Except DispatchError (Dispatched α)

/-- What an action does. -/
inductive Script (α σ : Type) where
  | finish (result : Except ActionError Value)
  | change (f : σ → σ) (next : Script α σ)
  | inspect (next : σ → Script α σ)
  | dispatch (actor : Actor) (input : String) (next : Answer α → Script α σ)
  | register (declaration : Declaration α)
      (next : Except GrammarError (List (Command α)) → Script α σ)
  | unregister (id : CommandId) (next : Option (Command α) → Script α σ)
  | unregisterIf (p : Command α → Bool) (next : List (Command α) → Script α σ)
  | commands (next : List (Command α) → Script α σ)

/-! ## Hooks and handlers -/

/-- Watches registrations and executions, and may cancel them. -/
structure Hook (α σ : Type) where
  /-- asked before a command is added -/
  registering : Command α → σ → Bool × σ
  /-- told after a command has been removed -/
  unregistered : Command α → σ → σ
  /-- asked before the winner's action runs -/
  executing : Context → σ → Bool × σ

/-- Receives what a dispatch has to tell. -/
structure Handlers (α σ : Type) where
  /-- chooses the error to report where every candidate failed -/
  failures : Actor → String → List (Trial α) → σ → CommandError × σ
  /-- gives the error to report where there was no candidate -/
  unknown : Actor → String → σ → CommandError × σ
  /-- hears of an action that failed -/
  exception : Context → ActionError → σ → σ
  /-- hears of a value that an action returned -/
  response : Context → Value → σ → σ

/-- The error for a line whose first word starts no command. -/
def unknownCommandError (input : String) : CommandError :=
  let word := (Text.leadingWord? input.toList).getD []
  (CommandError.ofFault (.unknownCommand (String.ofList word))).locate (.dispatching input)

/-- The error of the failure that got furthest. -/
def furthestError {α : Type} (input : String) (failures : List (Trial α)) : CommandError :=
  match (Trial.furthestFailure? failures).bind Trial.error with
  | some e => e
  | none => unknownCommandError input

/-- Handlers that report the furthest failure and are silent otherwise. -/
def Handlers.standard (α σ : Type) : Handlers α σ where
  failures := fun _ input failures s => (furthestError input failures, s)
  unknown := fun _ input s => (unknownCommandError input, s)
  exception := fun _ _ s => s
  response := fun _ _ s => s

/-! ## Dispatchers -/

/-- The fixed part of a dispatcher. -/
structure Dispatcher (α σ : Type) where
  settings : Settings
  pipeline : Pipeline α
  conditions : List (Condition σ)
  hooks : List (Hook α σ)
  handlers : Handlers α σ
  /-- what the host does with the notes of its validators -/
  absorb : Note → σ → σ
  /-- gives an ambient parameter its value, by a derivation of the host -/
  derive : α → Parameter → Context → σ → Except CommandError Value × σ
  /-- tells what an action does -/
  perform : α → Context → Script α σ

/-- The conditions of a dispatcher unless the host chooses others: permission, and cooldown in
ledger zero. -/
def Condition.standard (σ : Type) : List (Condition σ) := [.permission, .cooldown 0]

namespace Dispatcher

variable {α σ : Type}

/-- Hands notes to the host. -/
def absorbAll (d : Dispatcher α σ) (notes : List Note) (s : Session α σ) : Session α σ :=
  s.mapHost fun host => notes.foldl (fun host note => d.absorb note host) host

/-- Tries one command.  Conditions are asked once the input has been read. -/
def test (d : Dispatcher α σ) (c : Command α) (actor : Actor) (input : String) (s : Session α σ) :
    Option (Trial α × Session α σ) :=
  match Reading.ofInput d.settings c actor input with
  | none => none
  | some reading =>
    let s := d.absorbAll reading.notes s
    match reading.result with
    | .error e => some (.refuse reading e, s)
    | .ok rest =>
      match Condition.testAll reading.context d.conditions s.standing with
      | (.error e, standing) =>
        some (.refuse reading (e.locate reading.context.executing), { s with standing := standing })
      | (.ok (), standing) => some (.accept reading rest, { s with standing := standing })

/-- Tries commands in order, each of them whatever comes of the others. -/
def testEach (d : Dispatcher α σ) (actor : Actor) (input : String) :
    List (Command α) → Session α σ → Option (List (Trial α) × Session α σ)
  | [], s => some ([], s)
  | c :: rest, s =>
    match d.test c actor input s with
    | none => none
    | some (trial, s) =>
      match testEach d actor input rest s with
      | none => none
      | some (trials, s) => some (trial :: trials, s)

/-- Tries every command on each of the lines. -/
def testLines (d : Dispatcher α σ) (actor : Actor) (commands : List (Command α)) :
    List String → Session α σ → Option (List (List (Trial α)) × Session α σ)
  | [], s => some ([], s)
  | input :: rest, s =>
    match d.testEach actor input commands s with
    | none => none
    | some (trials, s) =>
      match testLines d actor commands rest s with
      | none => none
      | some (rows, s) => some (trials :: rows, s)

end Dispatcher

end CommandGrammar
