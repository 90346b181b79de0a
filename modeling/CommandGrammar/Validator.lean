import CommandGrammar.Parameter

/-!
# Validators

A validator looks at a value after it has been read and may reject it.  Two are built in: one
bounds the characters of a string, the other the entries of a list.  A validator of the host may
also leave notes on what it saw.
-/

set_option autoImplicit false

namespace CommandGrammar

/-- What a validator of the host noted down: the parameter, its declared type, and the value. -/
structure Note where
  parameter : String
  declared : DeclaredType
  value : Value
  deriving Inhabited

/-- The verdict of a check and the notes it left. -/
structure Checked where
  verdict : Except CommandError Unit
  notes : List Note

namespace Checked

/-- Accepts without a note. -/
def pass : Checked := ⟨.ok (), []⟩

/-- Rejects without a note. -/
def reject (e : CommandError) : Checked := ⟨.error e, []⟩

end Checked

/-- A check on values that have been read. -/
inductive Validator where
  /-- keeps the characters of a string within the parameter's bounds -/
  | length
  /-- keeps the entries of a list within the parameter's bounds -/
  | size
  /-- a check of the host's own -/
  | host (check : Value → Parameter → Context → Checked)

namespace Validator

/-- Whether a count lies within inclusive bounds. -/
def within (bounds : Nat × Nat) (n : Nat) : Bool := decide (bounds.1 ≤ n) && decide (n ≤ bounds.2)

theorem within_iff {bounds : Nat × Nat} {n : Nat} :
    within bounds n = true ↔ bounds.1 ≤ n ∧ n ≤ bounds.2 := by
  simp [within]

/-- Checks the number of characters of a text. -/
def checkLength (bounds : Nat × Nat) (text : String) : Checked :=
  let n := text.toList.length
  if within bounds n then .pass
  else
    .reject <| .ofFault <| .rejected text <|
      "length must be between " ++ toString bounds.1 ++ " and " ++ toString bounds.2 ++ ", got "
        ++ toString n

/-- Checks the number of entries of a list. -/
def checkSize (bounds : Nat × Nat) (items : List Value) : Checked :=
  let n := items.length
  if within bounds n then .pass
  else
    .reject <| .rejected (Value.list items).display <|
      "expected between " ++ toString bounds.1 ++ " and " ++ toString bounds.2
        ++ " entries, got " ++ toString n

/-- Runs one validator.  The built-in ones pass over values of another kind. -/
def check (v : Validator) (value : Value) (p : Parameter) (context : Context) : Checked :=
  match v with
  | .length =>
    match p.length, value.text? with
    | some bounds, some text => checkLength bounds text
    | _, _ => .pass
  | .size =>
    match p.size, value.list? with
    | some bounds, some items => checkSize bounds items
    | _, _ => .pass
  | .host check => check value p context

/-- Runs validators in order up to the first that rejects. -/
def checkAll (value : Value) (p : Parameter) (context : Context) : List Validator → Checked
  | [] => .pass
  | v :: rest =>
    match v.check value p context with
    | ⟨.error e, notes⟩ => ⟨.error e, notes⟩
    | ⟨.ok (), notes⟩ =>
      let later := checkAll value p context rest
      ⟨later.verdict, notes ++ later.notes⟩

end Validator

end CommandGrammar
