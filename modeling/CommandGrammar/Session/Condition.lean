import CommandGrammar.Session.Basic

/-!
# Conditions

A condition can hold a command back.  It is tested in every trial; the winner then has to claim
it, and a claim is either confirmed, when the action has ended well, or released.  Two kinds are
built in: the permission of the command, which is only tested, and the cooldown, whose claim
starts the waiting time so that nobody else gets through meanwhile.
-/

set_option autoImplicit false

namespace CommandGrammar

/-- A condition of the host's own. -/
structure HostCondition (σ : Type) where
  test : Context → σ → Except CommandError Unit × σ
  claim : Context → σ → Except CommandError Unit × σ
  confirm : Context → σ → σ
  release : Context → σ → σ

namespace HostCondition

variable {σ : Type}

/-- A condition that is only tested. -/
def ofTest (test : Context → Except CommandError Unit) : HostCondition σ where
  test := fun c s => (test c, s)
  claim := fun _ s => (.ok (), s)
  confirm := fun _ s => s
  release := fun _ s => s

end HostCondition

/-- What can hold a command back. -/
inductive Condition (σ : Type) where
  /-- the command's permission -/
  | permission
  /-- the command's cooldown, kept in a ledger -/
  | cooldown (ledger : Nat)
  | host (condition : HostCondition σ)

namespace Condition

variable {σ : Type}

/-- A verdict and the standing after it. -/
abbrev Verdict (σ : Type) : Type := Except CommandError Unit × Standing σ

/-- The refusal of a cooldown. -/
def waiting (left : Duration) : CommandError := .ofFault (.refused (.cooldown left))

/-- Tests the command's permission. -/
def testPermission (c : Context) : Except CommandError Unit :=
  if admitted c.command.metadata.permission c.actor then .ok ()
  else .error (.ofFault (.notPermitted c.command.path))

/-- Tests the command's cooldown. -/
def testCooldown (ledger : Nat) (c : Context) (s : Standing σ) : Except CommandError Unit :=
  match c.command.metadata.cooldown with
  | none => .ok ()
  | some _ =>
    match (s.ledgers ledger).remaining? s.now c.actor.id c.command.id with
    | some left => .error (waiting left)
    | none => .ok ()

/-- Tests a condition in a trial. -/
def test (condition : Condition σ) (c : Context) (s : Standing σ) : Verdict σ :=
  match condition with
  | .permission => (testPermission c, s)
  | .cooldown ledger => (testCooldown ledger c s, s)
  | .host h =>
    let (verdict, state) := h.test c s.host
    (verdict, { s with host := state })

/-- Starts the waiting time of the command, unless it is running. -/
def claimCooldown (ledger : Nat) (c : Context) (s : Standing σ) : Verdict σ :=
  match c.command.metadata.cooldown with
  | none => (.ok (), s)
  | some wait =>
    let pruned := (s.ledgers ledger).prune s.now
    match pruned.remaining? s.now c.actor.id c.command.id with
    | some left => (.error (waiting left), s.setLedger ledger pruned)
    | none =>
      (.ok (), s.setLedger ledger (pruned.record c.actor.id c.command.id (s.now.after wait)))

/-- Claims a condition for the winner. -/
def claim (condition : Condition σ) (c : Context) (s : Standing σ) : Verdict σ :=
  match condition with
  | .permission => (.ok (), s)
  | .cooldown ledger => claimCooldown ledger c s
  | .host h =>
    let (verdict, state) := h.claim c s.host
    (verdict, { s with host := state })

/-- Tells a claimed condition that the action has ended well.  The waiting time starts anew. -/
def confirm (condition : Condition σ) (c : Context) (s : Standing σ) : Standing σ :=
  match condition with
  | .permission => s
  | .cooldown ledger =>
    match c.command.metadata.cooldown with
    | none => s
    | some wait =>
      let pruned := (s.ledgers ledger).prune s.now
      s.setLedger ledger (pruned.record c.actor.id c.command.id (s.now.after wait))
  | .host h => s.mapHost (h.confirm c)

/-- Tells a claimed condition that the action has not ended well, or has not begun.  The waiting
time is taken back. -/
def release (condition : Condition σ) (c : Context) (s : Standing σ) : Standing σ :=
  match condition with
  | .permission => s
  | .cooldown ledger =>
    match c.command.metadata.cooldown with
    | none => s
    | some _ => s.setLedger ledger ((s.ledgers ledger).erase c.actor.id c.command.id)
  | .host h => s.mapHost (h.release c)

/-- Tests conditions in order up to the first that fails. -/
def testAll (c : Context) : List (Condition σ) → Standing σ → Verdict σ
  | [], s => (.ok (), s)
  | condition :: rest, s =>
    match condition.test c s with
    | (.error e, s) => (.error e, s)
    | (.ok (), s) => testAll c rest s

end Condition

end CommandGrammar
