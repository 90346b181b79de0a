import CommandGrammar.Cursor.Typed
import CommandGrammar.Text.LowerCase
import CommandGrammar.Validator

/-!
# Value types

A value type says how a value is read from the input.  The scalars read one word, a single string
also a quoted text; free text and lists are *greedy*, they take the rest of the input.  Wrappers
bound a number or run validators over what another type has read.  A host adds types of its own
by giving the function that reads them.

Types also have a priority, by which two commands that fit equally well are told apart, and some
have a greedy variant, which replaces them at the end of a command.
-/

set_option autoImplicit false

namespace CommandGrammar

/-- How much a type is preferred over others that fit as well.  The order is that of the
constructors. -/
inductive Preference where
  | highest
  | usual
  | lowest
  deriving DecidableEq, Repr, Inhabited

namespace Preference

/-- The place of a preference; the smaller is preferred. -/
def rank : Preference → Nat
  | .highest => 0
  | .usual => 1
  | .lowest => 2

end Preference

/-- What reading a value gives: the value or an error, the place after it, and the notes left. -/
structure Parsed where
  result : Except CommandError Value
  cursor : Cursor
  notes : List Note

/-- A value type of the host. -/
structure HostType where
  name : String
  read : Cursor → Context → Parsed
  preference : Preference
  greedy : Bool
  suggestions : List String

/-- How a value is read. -/
inductive ValueType where
  | int
  | float
  | bool
  | char
  /-- a word or a quoted text -/
  | string
  /-- the rest of the input as it stands -/
  | text
  /-- entries of the inner type, up to the end of the input -/
  | list (inner : ValueType)
  | enumeration (spec : Enumeration) (caseSensitive : Bool)
  /-- the inner type with inclusive bounds on numbers -/
  | ranged (inner : ValueType) (min max : Option Numeric.Binary64)
  /-- the inner type with validators that run after it, on behalf of a parameter -/
  | validated (inner : ValueType) (parameter : Parameter) (validators : List Validator)
  | host (type : HostType)
  /-- a type of the host with a greedy variant -/
  | promotable (type : HostType) (variant : ValueType)
  deriving Inhabited

namespace ValueType

/-! ## Properties -/

/-- The short name of a type. -/
def name : ValueType → String
  | .int => "int"
  | .float => "float"
  | .bool => "bool"
  | .char => "char"
  | .string => "string"
  | .text => "text"
  | .list inner => "list<" ++ inner.name ++ ">"
  | .enumeration spec _ => spec.name
  | .ranged inner _ _ => inner.name
  | .validated inner _ _ => inner.name
  | .host type => type.name
  | .promotable type _ => type.name

/-- Whether the type takes the rest of the input. -/
def isGreedy : ValueType → Bool
  | .text => true
  | .list _ => true
  | .ranged inner _ _ => inner.isGreedy
  | .validated inner _ _ => inner.isGreedy
  | .host type => type.greedy
  | .promotable type _ => type.greedy
  | _ => false

/-- The preference of a type.  Strings fit nearly everything and come last. -/
def preference : ValueType → Preference
  | .string => .lowest
  | .text => .lowest
  | .ranged inner _ _ => inner.preference
  | .validated inner _ _ => inner.preference
  | .host type => type.preference
  | .promotable type _ => type.preference
  | _ => .usual

/-- The type that takes this one's place at the end of a command. -/
def greedyVariant? : ValueType → Option ValueType
  | .string => some .text
  | .validated inner p validators =>
    match inner.greedyVariant? with
    | some variant => some (.validated variant p validators)
    | none => none
  | .promotable _ variant => some variant
  | _ => none

/-- The completions offered where a parameter has no suggestions of its own. -/
def suggestions : ValueType → List String
  | .bool => ["true", "false"]
  | .list inner => inner.suggestions
  | .enumeration spec caseSensitive =>
    if caseSensitive then spec.variants
    else spec.variants.map fun v => String.ofList (Text.lowerCase v.toList)
  | .ranged inner _ _ => inner.suggestions
  | .validated inner _ _ => inner.suggestions
  | .host type => type.suggestions
  | .promotable type _ => type.suggestions
  | _ => []

/-! ## Reading -/

/-- Wraps a read that leaves no notes. -/
def quiet {α : Type} (wrap : α → Value) (r : Except CommandError α × Cursor) : Parsed :=
  ⟨r.1.map wrap, r.2, []⟩

/-- Reads a word of exactly one character. -/
def readChar (c : Cursor) : Parsed :=
  let (word, after) := c.readWord
  match word with
  | [x] => ⟨.ok (.char x), after, []⟩
  | _ => ⟨.error (.rejected word "expected a single character"), after, []⟩

/-- Reads a word or a quoted text. -/
def readString (c : Cursor) : Parsed :=
  match c.readText with
  | (.ok word, after) => ⟨.ok (.string (String.ofList word)), after, []⟩
  | (.error fault, after) => ⟨.error (.malformed fault), after, []⟩

/-- The variant that a word names; in the insensitive mode up to ASCII case. -/
def variantOf? (spec : Enumeration) (caseSensitive : Bool) (word : List Char) : Option String :=
  spec.variants.find? fun v =>
    if caseSensitive then decide (v.toList = word) else Text.sameFolded v.toList word

/-- Reads the name of a variant. -/
def readVariant (spec : Enumeration) (caseSensitive : Bool) (c : Cursor) : Parsed :=
  let (word, after) := c.readWord
  match variantOf? spec caseSensitive word with
  | some v => ⟨.ok (.variant v), after, []⟩
  | none =>
    ⟨.error (.rejected word ("expected one of: " ++ Text.enumerate spec.variants)), after, []⟩

/-- Reads entries separated by blanks until the input ends, at most `fuel` of them.  An entry
that is touched by the next word is refused, so each entry but the last takes a character. -/
def readEntries (readOne : Cursor → Parsed) :
    Nat → Cursor → Except CommandError (List Value) × Cursor × List Note
  | 0, c => (.error (.malformed .missingBlank), c, [])
  | fuel + 1, c =>
    let start := c.skipBlanks
    if start.atEnd then (.ok [], start, [])
    else
      match readOne start with
      | ⟨.error e, after, notes⟩ => (.error e, after, notes)
      | ⟨.ok value, after, notes⟩ =>
        if !after.atEnd && !after.atBlank then (.error (.malformed .missingBlank), after, notes)
        else
          let (later, last, more) := readEntries readOne fuel after
          (later.map (value :: ·), last, notes ++ more)

theorem readEntries_zero (readOne : Cursor → Parsed) (c : Cursor) :
    readEntries readOne 0 c = (.error (.malformed .missingBlank), c, []) := by
  rw [readEntries]

/-- The message for a number out of bounds, if it is. -/
def outOfRange? (min max : Option Numeric.Binary64) (x : Numeric.Binary64) : Option String :=
  let bound (b : Numeric.Binary64) := String.ofList (Value.boundLayout.render b)
  match min.filter (fun b => x.below b) with
  | some b => some ("must be at least " ++ bound b)
  | none =>
    match max.filter (fun b => b.below x) with
    | some b => some ("must be at most " ++ bound b)
    | none => none

/-- Keeps numbers within bounds; other values pass. -/
def boundValue (min max : Option Numeric.Binary64) (value : Value) : Except CommandError Value :=
  match value.number? with
  | none => .ok value
  | some x =>
    match outOfRange? min max x with
    | some reason => .error (.rejected value.display reason)
    | none => .ok value

/-- Reads a value at the cursor. -/
def parse (t : ValueType) (c : Cursor) (context : Context) : Parsed :=
  match t with
  | .int => quiet .int c.readInt
  | .float => quiet .float c.readFloat
  | .bool => quiet .bool c.readBool
  | .char => readChar c
  | .string => readString c
  | .text => ⟨.ok (.string (String.ofList c.readRest.1)), c.readRest.2, []⟩
  | .list inner =>
    let (items, after, notes) :=
      readEntries (fun c => inner.parse c context) (c.rest.length + 1) c
    ⟨items.map .list, after, notes⟩
  | .enumeration spec caseSensitive => readVariant spec caseSensitive c
  | .ranged inner min max =>
    match inner.parse c context with
    | ⟨.ok value, after, notes⟩ => ⟨boundValue min max value, after, notes⟩
    | failed => failed
  | .validated inner p validators =>
    match inner.parse c context with
    | ⟨.ok value, after, notes⟩ =>
      let checked := Validator.checkAll value p context validators
      ⟨checked.verdict.map fun _ => value, after, notes ++ checked.notes⟩
    | failed => failed
  | .host type => type.read c context
  | .promotable type _ => type.read c context

/-- Reading a text takes all that is left and never fails. -/
theorem parse_text (c : Cursor) (context : Context) :
    parse .text c context = ⟨.ok (.string (String.ofList c.readRest.1)), c.readRest.2, []⟩ := by
  rw [parse]

end ValueType

end CommandGrammar
