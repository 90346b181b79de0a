import CommandGrammar.Command.Rank
import CommandGrammar.Trial.Parse

/-!
# Trials

A trial is the outcome of trying one command against an input: a context with all arguments, or
the error that eliminated the command.  A failed trial keeps no arguments.  Successful trials are
sorted to find the one to run, and failed ones are searched for the one to report.
-/

set_option autoImplicit false

namespace CommandGrammar

/-- The outcome of trying a command. -/
structure Trial (α : Type) where
  command : Command α
  context : Context
  /-- what eliminated the command -/
  error : Option CommandError
  /-- no input is left over -/
  consumedAll : Bool
  /-- the index of the last node that was tried, or the number of nodes -/
  furthest : Nat

namespace Trial

variable {α : Type}

/-- Whether the command fits. -/
def succeeded (t : Trial α) : Bool := t.error.isNone

/-- The trial of a command whose reading or conditions failed. -/
def refuse (r : Reading α) (e : CommandError) : Trial α :=
  ⟨r.command, r.context.clear, some e, false, r.furthest⟩

/-- The trial of a command that fits and leaves `rest` unread. -/
def accept (r : Reading α) (rest : Cursor) : Trial α :=
  ⟨r.command, r.context, none, rest.skipBlanks.atEnd, r.command.size⟩

/-- The trial that a reading makes when no condition is asked. -/
def ofReading (r : Reading α) : Trial α :=
  match r.result with
  | .error e => refuse r e
  | .ok rest => accept r rest

/-! ## Choosing among trials -/

/-- Compares two trials; `lt` is for the one to run first.  A success comes before a failure; then
the declared precedence decides, then having consumed all input, then specificity. -/
def compare (a b : Trial α) : Ordering :=
  (Ord.compare b.succeeded.toNat a.succeeded.toNat).then <|
    (a.command.precedence b.command).then <|
      (Ord.compare b.consumedAll.toNat a.consumedAll.toNat).then <|
        a.command.specificity b.command

/-- Puts a trial into a row that stands from last to first: past those at its near end that the trial
compares less than, and no further. -/
def insertBack (t : Trial α) : List (Trial α) → List (Trial α)
  | [] => [t]
  | u :: row => if compare t u = .lt then u :: insertBack t row else t :: u :: row

/-- The trials in the order in which they are to be run, sorted stably by insertion. -/
def sorted (trials : List (Trial α)) : List (Trial α) :=
  (trials.foldl (fun row t => insertBack t row) []).reverse

/-- The trial to run.  Of commands that their rank orders it is the first that no other beats.  Where
commands with a priority and without one go round in a circle, no trial need be unbeaten, and which
one comes first depends on the comparisons that insertion makes. -/
def best? (trials : List (Trial α)) : Option (Trial α) := (sorted trials).head?

theorem perm_insertBack (t : Trial α) (row : List (Trial α)) :
    (insertBack t row).Perm (t :: row) := by
  induction row with
  | nil => exact .refl _
  | cons u row ih =>
    rw [insertBack]
    split
    · exact (ih.cons u).trans (.swap t u row)
    · exact .refl _

/-- Sorting loses no trial and repeats none. -/
theorem perm_sorted (trials : List (Trial α)) : (sorted trials).Perm trials := by
  have hrow : ∀ row, (trials.foldl (fun row t => insertBack t row) row).Perm (trials ++ row) := by
    induction trials with
    | nil => exact fun row => .refl row
    | cons t rest ih =>
      intro row
      exact (ih _).trans (((perm_insertBack t row).append_left rest).trans List.perm_middle)
  have hall := hrow []
  rw [List.append_nil] at hall
  exact (List.reverse_perm _).trans hall

/-- Compares two failures; `lt` is for the one to report.  The one that got further comes first,
then the one whose command ranks higher. -/
def compareFailures (a b : Trial α) : Ordering :=
  (Ord.compare b.furthest a.furthest).then (a.command.rank b.command)

/-- The failure to report of two; the earlier one unless it compares greater. -/
def preferFailure (best t : Trial α) : Trial α :=
  if compareFailures best t = .gt then t else best

/-- The failed trial that got furthest. -/
def furthestFailure? (trials : List (Trial α)) : Option (Trial α) :=
  match trials.filter fun t => !t.succeeded with
  | [] => none
  | t :: rest => some (rest.foldl preferFailure t)

end Trial

end CommandGrammar
