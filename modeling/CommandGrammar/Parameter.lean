import CommandGrammar.Context

/-!
# Parameters

A parameter is declared with a name, a type and options.  It is matched by its place among the
words of the input, or, as a flag or a switch, by name anywhere in it.
-/

set_option autoImplicit false

namespace CommandGrammar

/-! ## Declared types -/

/-- A fixed set of names. -/
structure Enumeration where
  name : String
  variants : List String
  deriving DecidableEq, Repr, Inhabited

/-- The type that a parameter is declared with. -/
inductive DeclaredType where
  | int
  | float
  | bool
  | char
  | string
  | enumeration (spec : Enumeration)
  | list (inner : DeclaredType)
  /-- a type that the host registers under a name -/
  | named (name : String)
  deriving DecidableEq, Repr, Inhabited

namespace DeclaredType

/-- How the type is written in messages. -/
def display : DeclaredType → List Char
  | .int => "int".toList
  | .float => "float".toList
  | .bool => "bool".toList
  | .char => "char".toList
  | .string => "string".toList
  | .enumeration spec => "enum ".toList ++ spec.name.toList
  | .list inner => "list<".toList ++ inner.display ++ ['>']
  | .named name => name.toList

/-- Whether values of the type are numbers. -/
def isNumeric : DeclaredType → Bool
  | .int => true
  | .float => true
  | _ => false

/-- How many list layers surround the innermost type. -/
def depth : DeclaredType → Nat
  | .list inner => inner.depth + 1
  | _ => 0

end DeclaredType

/-! ## Ways of matching -/

/-- The names of a flag or a switch, where they are not the default ones. -/
structure FlagNames where
  long : Option String
  short : Option Char
  deriving DecidableEq, Repr, Inhabited

namespace FlagNames

/-- The names that follow from the parameter's name. -/
def byParameter : FlagNames := ⟨none, none⟩

/-- The long name: the parameter's own unless given. -/
def longName (names : FlagNames) (parameter : String) : String := names.long.getD parameter

/-- The shorthand: the first character of the long name unless given. -/
def shorthand (names : FlagNames) (parameter : String) : Option Char :=
  match names.short with
  | some c => some c
  | none => (names.longName parameter).toList.head?

end FlagNames

/-- How a parameter is matched in the input. -/
inductive Matching where
  /-- by its place -/
  | positional
  /-- by name, with a value behind it -/
  | flag (names : FlagNames)
  /-- by name alone -/
  | switch (names : FlagNames)
  deriving DecidableEq, Repr, Inhabited

namespace Matching

/-- The names of a flag or a switch. -/
def names? : Matching → Option FlagNames
  | .positional => none
  | .flag names => some names
  | .switch names => some names

/-- Whether a parameter is matched by place. -/
def isPositional (m : Matching) : Bool := m.names?.isNone

/-- Whether a parameter is a flag. -/
def isFlag : Matching → Bool
  | .flag _ => true
  | _ => false

/-- Whether a parameter is a switch. -/
def isSwitch : Matching → Bool
  | .switch _ => true
  | _ => false

end Matching

/-! ## Parameters -/

/-- Offers completions for the word that is being typed. -/
abbrev Suggester : Type := List Char → Context → List String

/-- A declared parameter. -/
structure Parameter where
  name : String
  declared : DeclaredType
  isOptional : Bool
  /-- the text that stands in for an absent parameter -/
  defaultText : Option String
  matching : Matching
  /-- whether it was declared a flag and a switch at different times -/
  flagAndSwitch : Bool
  /-- a string at the end of a command stays one word -/
  single : Bool
  /-- inclusive bounds of a number -/
  range : Option (Option Numeric.Binary64 × Option Numeric.Binary64)
  /-- inclusive bounds of the number of characters -/
  length : Option (Nat × Nat)
  /-- inclusive bounds of the number of entries -/
  size : Option (Nat × Nat)
  description : Option String
  permission : Option Permission
  suggester : Option Suggester

namespace Parameter

/-- A required positional parameter without bounds. -/
def required (name : String) (declared : DeclaredType) : Parameter where
  name := name
  declared := declared
  isOptional := false
  defaultText := none
  matching := .positional
  flagAndSwitch := false
  single := false
  range := none
  length := none
  size := none
  description := none
  permission := none
  suggester := none

instance : Inhabited Parameter := ⟨required "" .int⟩

/-- Lets the parameter be absent. -/
def optional (p : Parameter) : Parameter := { p with isOptional := true }

/-- Lets the parameter be absent and gives the text to read then. -/
def withDefault (p : Parameter) (text : String) : Parameter :=
  { p with defaultText := some text, isOptional := true }

/-- Makes the parameter a flag. -/
def asFlag (p : Parameter) (names : FlagNames) : Parameter :=
  { p with flagAndSwitch := p.flagAndSwitch || p.matching.isSwitch, matching := .flag names }

/-- Makes the parameter a switch. -/
def asSwitch (p : Parameter) (names : FlagNames) : Parameter :=
  { p with flagAndSwitch := p.flagAndSwitch || p.matching.isFlag, matching := .switch names }

/-- The parameter with another type.  Bounds on the number and on the entries belong to the type
and go; the bound on characters stays, so that it reaches the entries of a list. -/
def withType (p : Parameter) (declared : DeclaredType) : Parameter :=
  { p with declared := declared, range := none, size := none }

/-- Whether the parameter is matched by place. -/
def isPositional (p : Parameter) : Bool := p.matching.isPositional

/-- The long name of a flag or a switch. -/
def longName? (p : Parameter) : Option String := p.matching.names?.map fun n => n.longName p.name

/-- The shorthand of a flag or a switch. -/
def shorthand? (p : Parameter) : Option Char := p.matching.names?.bind fun n => n.shorthand p.name

@[simp] theorem withType_declared (p : Parameter) (declared : DeclaredType) :
    (p.withType declared).declared = declared := rfl

@[simp] theorem withType_length (p : Parameter) (declared : DeclaredType) :
    (p.withType declared).length = p.length := rfl

end Parameter

end CommandGrammar
