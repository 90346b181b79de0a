import CommandGrammar.Context

/-!
# Cooldown ledgers

A ledger records until when an actor has to wait before running a command again: for each actor a
table from commands to instants.  Entries whose instant has come are dropped when the ledger is
next written, together with tables that are then empty.
-/

set_option autoImplicit false

namespace CommandGrammar

/-- A point in time, in microseconds. -/
structure Instant where
  micros : Nat
  deriving DecidableEq, Repr, Inhabited

namespace Instant

/-- A later point in time. -/
def after (t : Instant) (d : Duration) : Instant := ⟨t.micros + d.micros⟩

/-- The time from one point to another; nothing if that has come. -/
def timeUntil? (now until_ : Instant) : Option Duration :=
  if now.micros < until_.micros then some ⟨until_.micros - now.micros⟩ else none

end Instant

/-- The instants of one actor, by command. -/
abbrev CooldownTable : Type := List (CommandId × Instant)

/-- Tables by actor. -/
structure Ledger where
  tables : List (ActorId × CooldownTable)
  deriving DecidableEq, Repr, Inhabited

namespace Ledger

/-- Nothing recorded. -/
def empty : Ledger := ⟨[]⟩

/-- The table of an actor, which is empty where none is recorded. -/
def tableOf (l : Ledger) (actor : ActorId) : CooldownTable := (l.tables.lookup actor).getD []

/-- The time that an actor still has to wait. -/
def remaining? (l : Ledger) (now : Instant) (actor : ActorId) (command : CommandId) :
    Option Duration :=
  ((l.tableOf actor).lookup command).bind now.timeUntil?

/-- How many actors have a table. -/
def trackedActors (l : Ledger) : Nat := l.tables.length

/-- The entries whose instant has not come. -/
def pruneTable (now : Instant) (table : CooldownTable) : CooldownTable :=
  table.filter fun entry => decide (now.micros < entry.2.micros)

/-- Drops entries whose instant has come, and tables that are then empty. -/
def prune (l : Ledger) (now : Instant) : Ledger :=
  ⟨(l.tables.map fun t => (t.1, pruneTable now t.2)).filter fun t => !t.2.isEmpty⟩

/-- The entries of all keys but one. -/
def without {κ β : Type} [DecidableEq κ] (key : κ) (entries : List (κ × β)) : List (κ × β) :=
  entries.filter fun entry => decide (entry.1 ≠ key)

/-- Records an instant, in place of an earlier one. -/
def record (l : Ledger) (actor : ActorId) (command : CommandId) (until_ : Instant) : Ledger :=
  let table := without command (l.tableOf actor) ++ [(command, until_)]
  ⟨without actor l.tables ++ [(actor, table)]⟩

/-- Drops the instant of an actor and a command, and the actor's table if it is then empty. -/
def erase (l : Ledger) (actor : ActorId) (command : CommandId) : Ledger :=
  let table := without command (l.tableOf actor)
  if table.isEmpty then ⟨without actor l.tables⟩
  else ⟨l.tables.map fun t => if t.1 = actor then (actor, table) else t⟩

end Ledger

end CommandGrammar
