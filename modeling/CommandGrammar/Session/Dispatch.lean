import CommandGrammar.Session.Registry

/-!
# Dispatching a line

The commands whose first word is that of the line are tried in the order of their rank, until
enough of them fit.  The best of those that fit is the winner.  It claims every condition in order
and asks every hook; then its ambient parameters are resolved and its action is invoked.  However
that ends, every condition that was claimed is settled: confirmed where the action ended well,
released otherwise.

Actions may dispatch lines of their own.  The nesting is bounded by a number, and `none` stands
for a dispatch that goes deeper, or for a trial that does not end.
-/

set_option autoImplicit false

namespace CommandGrammar

variable {α σ : Type}

/-- Answers a dispatch from inside an action. -/
abbrev Nested (α σ : Type) : Type :=
  Actor → String → Session α σ → Option (Answer α × Session α σ)

namespace Dispatcher

/-! ## Trials -/

/-- The trials of a dispatch. -/
structure Trials (α : Type) where
  successes : List (Trial α)
  failures : List (Trial α)

/-- Tries commands in order until `missing` more of them fit. -/
def tryEach (d : Dispatcher α σ) (actor : Actor) (input : String) :
    Nat → List (Command α) → Session α σ → Option (Trials α × Session α σ)
  | 0, _, s => some (⟨[], []⟩, s)
  | _, [], s => some (⟨[], []⟩, s)
  | missing + 1, c :: rest, s =>
    match d.test c actor input s with
    | none => none
    | some (trial, s) =>
      if trial.succeeded then
        match tryEach d actor input missing rest s with
        | none => none
        | some (later, s) => some (⟨trial :: later.successes, later.failures⟩, s)
      else
        match tryEach d actor input (missing + 1) rest s with
        | none => none
        | some (later, s) => some (⟨later.successes, trial :: later.failures⟩, s)

/-! ## Conditions and hooks of the winner -/

/-- The conditions with their places. -/
def placedConditions (d : Dispatcher α σ) : List (Condition σ × Nat) := d.conditions.zipIdx

/-- Releases conditions in order. -/
def releaseEach (serial : Nat) (c : Context) :
    List (Condition σ × Nat) → Session α σ → Session α σ
  | [], s => s
  | (condition, i) :: rest, s =>
    releaseEach serial c rest
      (({ s with standing := condition.release c s.standing }).note serial (.released i))

/-- Confirms conditions in order. -/
def confirmEach (serial : Nat) (c : Context) :
    List (Condition σ × Nat) → Session α σ → Session α σ
  | [], s => s
  | (condition, i) :: rest, s =>
    confirmEach serial c rest
      (({ s with standing := condition.confirm c s.standing }).note serial (.confirmed i))

/-- Claims conditions in order; `claimed` holds those before.  A refusal releases them again. -/
def claimEach (serial : Nat) (c : Context) (claimed : List (Condition σ × Nat)) :
    List (Condition σ × Nat) → Session α σ → Except CommandError Unit × Session α σ
  | [], s => (.ok (), s)
  | (condition, i) :: rest, s =>
    match condition.claim c s.standing with
    | (.error e, standing) =>
      let s := ({ s with standing := standing }).note serial (.refused i)
      (.error e, releaseEach serial c claimed s)
    | (.ok (), standing) =>
      let s := ({ s with standing := standing }).note serial (.claimed i)
      claimEach serial c (claimed ++ [(condition, i)]) rest s

/-- Asks every hook whether the winner may run. -/
def askExecuting (serial : Nat) (c : Context) :
    List (Hook α σ × Nat) → Session α σ → Bool × Session α σ
  | [], s => (true, s)
  | (hook, i) :: rest, s =>
    let (allowed, host) := hook.executing c s.standing.host
    let asked := { s with standing := { s.standing with host := host } }
    let s := asked.note serial (.asked i allowed)
    let (later, s) := askExecuting serial c rest s
    (allowed && later, s)

/-! ## Invoking the action -/

/-- Gives an ambient parameter its value. -/
def ambientValue (d : Dispatcher α σ) (p : Parameter) (source : Ambient α) (c : Context)
    (s : Session α σ) : Except CommandError Value × Session α σ :=
  match source with
  | .actor => (.ok (.actor c.actor.id), s)
  | .input => (.ok (.string c.input), s)
  | .command => (.ok (.string c.command.path), s)
  | .object object => (.ok (.host object), s)
  | .host name =>
    let (result, host) := d.derive name p c s.standing.host
    (result, { s with standing := { s.standing with host := host } })

/-- Resolves ambient parameters in order; on a failure those before it stay bound. -/
def resolveAmbients (d : Dispatcher α σ) : List (Parameter × Ambient α) → Context →
    Session α σ → Except CommandError Unit × Context × Session α σ
  | [], c, s => (.ok (), c, s)
  | (p, source) :: rest, c, s =>
    match d.ambientValue p source c s with
    | (.error e, s) => (.error (e.locate c.executing), c, s)
    | (.ok value, s) => resolveAmbients d rest (c.bind p.name value) s

/-- Runs a script. -/
def runScript (d : Dispatcher α σ) (nested : Nested α σ) :
    Script α σ → Session α σ → Option (Except ActionError Value × Session α σ)
  | .finish result, s => some (result, s)
  | .change f next, s => runScript d nested next (s.mapHost f)
  | .inspect next, s => runScript d nested (next s.standing.host) s
  | .dispatch actor input next, s =>
    match nested actor input s with
    | none => none
    | some (answer, s) => runScript d nested (next answer) s
  | .register declaration next, s =>
    let (result, s) := d.registerDeclaration declaration s
    runScript d nested (next result) s
  | .unregister id next, s =>
    let (removed, s) := d.unregister id s
    runScript d nested (next removed) s
  | .unregisterIf p next, s =>
    let (removed, s) := d.unregisterIf p s
    runScript d nested (next removed) s
  | .commands next, s => runScript d nested (next s.commands) s

/-- Resolves the ambient parameters of a body and runs its action. -/
def invoke (d : Dispatcher α σ) (nested : Nested α σ) (serial : Nat) (body : Body α) (c : Context)
    (s : Session α σ) : Option (Except ActionError Value × Context × Session α σ) :=
  match d.resolveAmbients body.ambients c s with
  | (.error e, c, s) => some (.error (.command e), c, s)
  | (.ok (), c, s) =>
    let s := s.note serial (.invoked c.actor.id c.command.id c.command.metadata.cooldown)
    match d.runScript nested (d.perform body.action c) s with
    | none => none
    | some (result, s) => some (result, c, s)

/-- Hands a response to its handler, unless it is nil. -/
def respond (d : Dispatcher α σ) (serial : Nat) (c : Context) (response : Value)
    (s : Session α σ) : Session α σ :=
  if response.isNil then s
  else (s.mapHost (d.handlers.response c response)).note serial .responded

/-- Settles the conditions of a winner whose invocation has ended. -/
def settle (d : Dispatcher α σ) (serial : Nat) (winner : Command α)
    (result : Except ActionError Value) (c : Context) (s : Session α σ) :
    Answer α × Session α σ :=
  match result with
  | .ok response =>
    let s := confirmEach serial c d.placedConditions (s.note serial (.ended true))
    (.ok ⟨winner, c.arguments, response⟩, d.respond serial c response s)
  | .error e =>
    let s := releaseEach serial c d.placedConditions (s.note serial (.ended false))
    let s := (s.mapHost (d.handlers.exception c e)).note serial .excepted
    (.error (.action c.command.path e), s)

/-- Runs the winner of a dispatch. -/
def execute (d : Dispatcher α σ) (nested : Nested α σ) (serial : Nat) (winner : Trial α)
    (s : Session α σ) : Option (Answer α × Session α σ) :=
  let c := winner.context
  match claimEach serial c [] d.placedConditions s with
  | (.error e, s) => some (.error (.failed (e.locate c.executing)), s)
  | (.ok (), s) =>
    match askExecuting serial c d.hooks.zipIdx s with
    | (false, s) =>
      some (.error (.vetoed c.command.path), releaseEach serial c d.placedConditions s)
    | (true, s) =>
      match winner.command.body? with
      | none =>
        some (.error (.action c.command.path (.failed "command has no action")),
          releaseEach serial c d.placedConditions s)
      | some body =>
        match d.invoke nested serial body c s with
        | none => none
        | some (result, c, s) => some (d.settle serial winner.command result c s)

/-! ## Dispatch -/

/-- Tries the candidates of a line and runs the winner. -/
def dispatchAmong (d : Dispatcher α σ) (nested : Nested α σ) (candidates : List (Command α))
    (actor : Actor) (input : String) (s : Session α σ) : Option (Answer α × Session α σ) :=
  match d.tryEach actor input d.settings.cap candidates s with
  | none => none
  | some (trials, s) =>
    match Trial.best? trials.successes with
    | none =>
      let (e, host) := d.handlers.failures actor input trials.failures s.standing.host
      some (.error (.failed e), { s with standing := { s.standing with host := host } })
    | some winner =>
      d.execute nested s.nextDispatch winner { s with nextDispatch := s.nextDispatch + 1 }

/-- Dispatches a line; actions may nest dispatches `depth` deep. -/
def dispatch (d : Dispatcher α σ) : Nat → Nested α σ
  | 0 => fun _ _ _ => none
  | depth + 1 => fun actor input s =>
    match s.candidates input with
    | [] =>
      let (e, host) := d.handlers.unknown actor input s.standing.host
      some (.error (.unknownCommand e), { s with standing := { s.standing with host := host } })
    | candidates => d.dispatchAmong (dispatch d depth) candidates actor input s

end Dispatcher

end CommandGrammar
