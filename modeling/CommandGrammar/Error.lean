import CommandGrammar.Duration

/-!
# Errors

Four families, by who meets them.

* `GrammarError` refuses a declaration when it is compiled; the author of a command meets it.
* `CommandError` eliminates one command during a dispatch.  It has a `Fault`, which is the cause,
  and the `Site` where it happened, once that is known.
* `ActionError` comes from an action that was started.
* `DispatchError` is the answer of a dispatch that ran no command to its end.

Each family has one function that words it.
-/

set_option autoImplicit false

namespace CommandGrammar

/-! ## Faults of one command -/

/-- Why an input could not be cut into words. -/
inductive InputFault where
  /-- a backslash stands before a character that needs no escape -/
  | badEscape
  /-- a quote was opened and never closed -/
  | unclosedQuote
  /-- something touches the end of a value -/
  | missingBlank
  deriving DecidableEq, Repr, Inhabited

namespace InputFault

/-- The wording of a fault. -/
def text : InputFault → String
  | .badEscape => "invalid escape character"
  | .unclosedQuote => "unclosed quote"
  | .missingBlank => "expected whitespace"

end InputFault

/-- Why a condition refused a command. -/
inductive Refusal where
  /-- the actor ran the command a short time ago -/
  | cooldown (left : Duration)
  /-- a reason of the host's own -/
  | custom (reason : String)
  deriving DecidableEq, Repr, Inhabited

namespace Refusal

/-- The wording of a refusal. -/
def text : Refusal → String
  | .cooldown left => "on cooldown for another " ++ toString left.millis ++ "ms"
  | .custom reason => reason

end Refusal

/-- Why a command was eliminated. -/
inductive Fault where
  /-- no command starts with the first word -/
  | unknownCommand (word : String)
  /-- the input has another word where the grammar has a literal -/
  | literalMismatch (expected found : String)
  /-- the input ended before a required parameter -/
  | missingArgument (parameter : String)
  /-- a type or a validator rejected a value -/
  | rejected (input reason : String)
  /-- a flag or a switch that the command does not have -/
  | unknownFlag (name : String) (shorthand : Bool)
  /-- quoting or separation is wrong -/
  | malformed (fault : InputFault)
  /-- the actor may not use a command or a parameter -/
  | notPermitted (target : String)
  /-- a condition refused -/
  | refused (refusal : Refusal)
  deriving DecidableEq, Repr, Inhabited

namespace Fault

/-- The wording of a fault. -/
def text : Fault → String
  | .unknownCommand word => "unknown command: " ++ word
  | .literalMismatch expected found => "expected '" ++ expected ++ "', found '" ++ found ++ "'"
  | .missingArgument parameter => "missing argument: " ++ parameter
  | .rejected input reason => "invalid value '" ++ input ++ "': " ++ reason
  | .unknownFlag name _ => "unknown flag or switch '" ++ name ++ "'"
  | .malformed fault => "malformed input: " ++ fault.text
  | .notPermitted target => "no permission to use " ++ target
  | .refused refusal => refusal.text

end Fault

/-- Where a fault happened. -/
inductive Site where
  /-- before any command was tried -/
  | dispatching (input : String)
  /-- at a literal node -/
  | literal (path word : String) (node : Nat)
  /-- at a parameter node; `unread` is the input from the node on -/
  | parameter (path name : String) (node : Nat) (unread : String)
  /-- among the flags, before one was recognised -/
  | flags (path : String)
  /-- in a condition or in the action -/
  | executing (path : String)
  deriving DecidableEq, Repr, Inhabited

namespace Site

/-- The path of the command that was being tried. -/
def path? : Site → Option String
  | .dispatching _ => none
  | .literal path _ _ => some path
  | .parameter path _ _ _ => some path
  | .flags path => some path
  | .executing path => some path

/-- The index of the node that failed. -/
def node? : Site → Option Nat
  | .literal _ _ node => some node
  | .parameter _ _ node _ => some node
  | _ => none

/-- The wording of a site. -/
def text : Site → String
  | .dispatching input => "while dispatching '" ++ input ++ "'"
  | .literal path word node =>
    "at literal '" ++ word ++ "' (node " ++ toString node ++ ") of '" ++ path ++ "'"
  | .parameter path name node unread =>
    "at parameter '" ++ name ++ "' (node " ++ toString node ++ ") of '" ++ path ++ "'"
      ++ (if unread.isEmpty then "" else " with input '" ++ unread ++ "'")
  | .flags path => "while reading flags of '" ++ path ++ "'"
  | .executing path => "while executing '" ++ path ++ "'"

end Site

/-- A fault and, once known, its site. -/
structure CommandError where
  fault : Fault
  site : Option Site
  deriving DecidableEq, Repr, Inhabited

namespace CommandError

/-- A fault whose site is not known yet. -/
def ofFault (fault : Fault) : CommandError := ⟨fault, none⟩

/-- Names the site of an error; the first site given is kept. -/
def locate (e : CommandError) (site : Site) : CommandError :=
  match e.site with
  | some _ => e
  | none => { e with site := some site }

/-- A value that a type or a validator rejects, as it was written. -/
def rejected (input : List Char) (reason : String) : CommandError :=
  ofFault (.rejected (String.ofList input) reason)

/-- An input that could not be cut into words. -/
def malformed (fault : InputFault) : CommandError := ofFault (.malformed fault)

/-- The wording of an error, which does not mention its site. -/
def text (e : CommandError) : String := e.fault.text

@[simp] theorem locate_fault (e : CommandError) (site : Site) :
    (e.locate site).fault = e.fault := by
  unfold locate
  split <;> rfl

@[simp] theorem locate_ofFault (fault : Fault) (site : Site) :
    (ofFault fault).locate site = ⟨fault, some site⟩ := rfl

theorem locate_locate (e : CommandError) (a b : Site) :
    (e.locate a).locate b = e.locate a := by
  obtain ⟨fault, site⟩ := e
  cases site <;> rfl

end CommandError

/-! ## Errors of a declaration -/

/-- Why a declaration does not compile. -/
inductive GrammarError where
  /-- the path has no tokens -/
  | emptyPath
  /-- a declaration has no path -/
  | noPaths
  /-- a placeholder has no name; `position` counts bytes -/
  | emptyPlaceholder (path : String) (position : Nat)
  /-- a placeholder is not closed -/
  | unterminatedPlaceholder (path : String)
  /-- a placeholder names no parameter that is still available -/
  | unknownPlaceholder (name available : String)
  /-- a placeholder occurs twice -/
  | duplicatePlaceholder (name : String)
  /-- a placeholder names a parameter that reads no input -/
  | ambientPlaceholder (name : String)
  /-- a parameter comes before the first literal -/
  | leadingParameter (name : String)
  /-- a literal follows an optional parameter -/
  | literalAfterOptional (word path : String)
  /-- a required parameter follows an optional one -/
  | requiredAfterOptional (name path : String)
  /-- a parameter that takes the rest of the input is not the last -/
  | greedyNotLast (name : String)
  /-- two parameters take the rest of the input -/
  | severalGreedy (first second : String)
  /-- no rule reads the declared type -/
  | unresolvable (name declared : String)
  /-- two flags share a long name -/
  | duplicateLongName (name : String)
  /-- two flags share a shorthand -/
  | duplicateShorthand (shorthand : Char)
  /-- a parameter was declared a flag and a switch -/
  | flagAndSwitch (name : String)
  /-- a command has a priority and the low-priority mark -/
  | conflictingPriority (path : String)
  deriving DecidableEq, Repr, Inhabited

namespace GrammarError

/-- The wording of a grammar error. -/
def text : GrammarError → String
  | .emptyPath => "command path is empty"
  | .noPaths => "command function has no paths"
  | .emptyPlaceholder path position =>
    "placeholder at byte " ++ toString position ++ " of '" ++ path ++ "' has no name"
  | .unterminatedPlaceholder path => "unterminated placeholder in '" ++ path ++ "'"
  | .unknownPlaceholder name available =>
    "no parameter named '" ++ name ++ "' (available: " ++ available ++ ")"
  | .duplicatePlaceholder name => "placeholder '" ++ name ++ "' appears more than once"
  | .ambientPlaceholder name =>
    "placeholder '" ++ name ++ "' resolves from context and cannot consume input"
  | .leadingParameter name => "first node must be a literal, found parameter '" ++ name ++ "'"
  | .literalAfterOptional word path =>
    "literal '" ++ word ++ "' sits between optional parameters in '" ++ path
      ++ "'; optional parameters must all come at the end"
  | .requiredAfterOptional name path =>
    "required parameter '" ++ name ++ "' sits between optional parameters in '" ++ path
      ++ "'; optional parameters must all come at the end"
  | .greedyNotLast name =>
    "greedy parameter '" ++ name ++ "' must be the last positional parameter"
  | .severalGreedy first second =>
    "found more than one greedy parameter ('" ++ first ++ "' and '" ++ second ++ "')"
  | .unresolvable name declared =>
    "no resolver for parameter '" ++ name ++ "' of type " ++ declared
  | .duplicateLongName name => "duplicate flag name '" ++ name ++ "'"
  | .duplicateShorthand shorthand => "duplicate flag shorthand '" ++ toString shorthand ++ "'"
  | .flagAndSwitch name => "parameter '" ++ name ++ "' cannot be both a flag and a switch"
  | .conflictingPriority path =>
    "'" ++ path ++ "' cannot have both an explicit priority and the low-priority marker"

end GrammarError

/-! ## Errors of an action -/

/-- Why an action did not finish. -/
inductive ActionError where
  /-- the action failed with a message -/
  | failed (message : String)
  /-- an ambient parameter could not be produced, or the action passed a command's error on -/
  | command (error : CommandError)
  /-- the action passed on an error of the host's own -/
  | foreign (message : String)
  deriving DecidableEq, Repr, Inhabited

namespace ActionError

/-- The wording of an action's error. -/
def text : ActionError → String
  | .failed message => message
  | .command error => error.text
  | .foreign message => message

end ActionError

/-! ## Errors of a dispatch -/

/-- Why a dispatch ran no command to its end. -/
inductive DispatchError where
  /-- no command starts with the first word -/
  | unknownCommand (error : CommandError)
  /-- every candidate was eliminated, or the winner lost its claim -/
  | failed (error : CommandError)
  /-- the winner's action failed -/
  | action (path : String) (error : ActionError)
  /-- a hook cancelled the winner -/
  | vetoed (path : String)
  deriving DecidableEq, Repr, Inhabited

namespace DispatchError

/-- The wording of a dispatch error. -/
def text : DispatchError → String
  | .unknownCommand error => error.text
  | .failed error => error.text
  | .action path error => "command '" ++ path ++ "' failed: " ++ error.text
  | .vetoed path => "execution of '" ++ path ++ "' was cancelled"

/-- The command's error inside, if no action was started. -/
def commandError? : DispatchError → Option CommandError
  | .unknownCommand error => some error
  | .failed error => some error
  | _ => none

end DispatchError

end CommandGrammar
