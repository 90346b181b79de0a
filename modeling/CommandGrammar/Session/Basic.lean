import CommandGrammar.Command
import CommandGrammar.Session.Ledger

/-!
# Sessions

The state that a dispatcher works on: the registered commands in the order of their rank, the
clock, the cooldown ledgers, the host's own state, and a journal.  The journal tells, for each
dispatch that chose a winner, which condition was claimed or refused, which hook was asked, whether
the action was invoked, and how the dispatch was settled.
-/

set_option autoImplicit false

namespace CommandGrammar

/-- What conditions, hooks and handlers look at and change. -/
structure Standing (σ : Type) where
  now : Instant
  /-- cooldown ledgers, by number -/
  ledgers : Nat → Ledger
  /-- the state of the host -/
  host : σ

namespace Standing

variable {σ : Type}

/-- Replaces one ledger. -/
def setLedger (s : Standing σ) (i : Nat) (l : Ledger) : Standing σ :=
  { s with ledgers := fun j => if j = i then l else s.ledgers j }

/-- Changes the state of the host. -/
def mapHost (s : Standing σ) (f : σ → σ) : Standing σ := { s with host := f s.host }

@[simp] theorem setLedger_ledgers_self (s : Standing σ) (i : Nat) (l : Ledger) :
    (s.setLedger i l).ledgers i = l := by simp [setLedger]

theorem setLedger_ledgers_of_ne (s : Standing σ) {i j : Nat} (l : Ledger) (h : j ≠ i) :
    (s.setLedger i l).ledgers j = s.ledgers j := by simp [setLedger, h]

@[simp] theorem mapHost_ledgers (s : Standing σ) (f : σ → σ) :
    (s.mapHost f).ledgers = s.ledgers := rfl

end Standing

/-- What happened in a dispatch.  Conditions and hooks are named by their place in the list of the
dispatcher. -/
inductive Happening where
  /-- a condition let the winner through -/
  | claimed (condition : Nat)
  /-- a condition held the winner back -/
  | refused (condition : Nat)
  /-- a hook was asked -/
  | asked (hook : Nat) (allowed : Bool)
  /-- the action was invoked, of a command with the given cooldown -/
  | invoked (actor : ActorId) (command : CommandId) (cooldown : Option Duration)
  /-- the invocation ended, well or not -/
  | ended (well : Bool)
  /-- a claimed condition was told that the action ended well -/
  | confirmed (condition : Nat)
  /-- a claimed condition was told that the action did not end well or never began -/
  | released (condition : Nat)
  /-- the exception handler was called -/
  | excepted
  /-- the response handler was called -/
  | responded
  deriving DecidableEq, Repr, Inhabited

/-- An entry of the journal: the number of a dispatch and what happened in it. -/
structure Entry where
  dispatch : Nat
  happening : Happening
  deriving DecidableEq, Repr, Inhabited

/-- The state of a dispatcher. -/
structure Session (α σ : Type) where
  /-- the registered commands, in the order of their rank -/
  commands : List (Command α)
  /-- the identity that the next compiled command gets -/
  nextId : Nat
  standing : Standing σ
  /-- the number that the next dispatch gets -/
  nextDispatch : Nat
  /-- what happened, in order -/
  journal : List Entry

namespace Session

variable {α σ : Type}

/-- A session without commands. -/
def start (now : Instant) (host : σ) : Session α σ :=
  ⟨[], 0, ⟨now, fun _ => .empty, host⟩, 0, []⟩

/-- Changes the state of the host. -/
def mapHost (s : Session α σ) (f : σ → σ) : Session α σ :=
  { s with standing := s.standing.mapHost f }

/-- Adds an entry to the journal. -/
def note (s : Session α σ) (dispatch : Nat) (happening : Happening) : Session α σ :=
  { s with journal := s.journal ++ [⟨dispatch, happening⟩] }

/-- The registered command with an identity. -/
def command? (s : Session α σ) (id : CommandId) : Option (Command α) :=
  s.commands.find? fun c => decide (c.id = id)

end Session

end CommandGrammar
