import CommandGrammar.Numeric.Integer
import CommandGrammar.Numeric.Shortest
import CommandGrammar.Text.Escaped
import CommandGrammar.Text.Join

/-!
# Values

What a parameter is bound to once its text has been read.  Besides the scalars, the enumerated
names and lists of values there are two kinds that come from outside the input: the actor who
issued the command, and a host's own object, which the library passes on without looking inside.

A value has two texts.  `display` is the one shown to users, which for the common kinds is the
text that reads back; `debug` tells kinds apart.
-/

set_option autoImplicit false

namespace CommandGrammar

open Numeric (Binary64 NumberLayout)

/-- The identity of an actor. -/
structure ActorId where
  raw : UInt64
  deriving DecidableEq, Repr, Inhabited

namespace ActorId

/-- The text of an identity. -/
def display (id : ActorId) : List Char := "actor#".toList ++ Numeric.decimalDigits id.raw.toNat

end ActorId

/-- An object of the host.  Two of them are the same when their identities are, whatever their
names; `word` is the 64-bit word inside, for an object that is one. -/
structure HostObject where
  identity : Nat
  name : String
  word : Option UInt64
  deriving DecidableEq, Repr, Inhabited

/-- A resolved argument. -/
inductive Value where
  /-- an optional parameter that was left out -/
  | nil
  | bool (b : Bool)
  | int (n : Int64)
  | float (x : Binary64)
  | char (c : Char)
  | string (text : String)
  /-- one of the names of an enumeration, as it was declared -/
  | variant (name : String)
  | list (items : List Value)
  | actor (id : ActorId)
  | host (object : HostObject)
  deriving Repr, Inhabited

namespace Value

/-! ## Kinds and accessors -/

/-- The name of a value's kind. -/
def kind : Value → String
  | .nil => "nil"
  | .bool _ => "bool"
  | .int _ => "int"
  | .float _ => "float"
  | .char _ => "char"
  | .string _ => "string"
  | .variant _ => "variant"
  | .list _ => "list"
  | .actor _ => "actor"
  | .host _ => "opaque"

/-- Whether the value is the absent one. -/
def isNil : Value → Bool
  | .nil => true
  | _ => false

/-- The truth value, if it is one. -/
def bool? : Value → Option Bool
  | .bool b => some b
  | _ => none

/-- The integer, if it is one. -/
def int? : Value → Option Int64
  | .int n => some n
  | _ => none

/-- The floating-point number, if it is one. -/
def float? : Value → Option Binary64
  | .float x => some x
  | _ => none

/-- The number, if it is one; an integer is rounded to the nearest floating-point number. -/
def number? : Value → Option Binary64
  | .int n => some (Binary64.ofInt n.toInt)
  | .float x => some x
  | _ => none

/-- The character, if it is one. -/
def char? : Value → Option Char
  | .char c => some c
  | _ => none

/-- The text of a string or of an enumerated name. -/
def text? : Value → Option String
  | .string text => some text
  | .variant name => some name
  | _ => none

/-- The entries, if it is a list. -/
def list? : Value → Option (List Value)
  | .list items => some items
  | _ => none

/-- The actor, if it is one. -/
def actor? : Value → Option ActorId
  | .actor id => some id
  | _ => none

/-- The object of the host, if it is one. -/
def host? : Value → Option HostObject
  | .host object => some object
  | _ => none

/-! ## Equality -/

mutual

/-- Whether two values are equal: of one kind and with equal contents, floating-point numbers by
their bits and objects of the host by their identity. -/
def same : Value → Value → Bool
  | .nil, .nil => true
  | .bool a, .bool b => decide (a = b)
  | .int a, .int b => decide (a = b)
  | .float a, .float b => decide (a = b)
  | .char a, .char b => decide (a = b)
  | .string a, .string b => decide (a = b)
  | .variant a, .variant b => decide (a = b)
  | .list a, .list b => sameList a b
  | .actor a, .actor b => decide (a = b)
  | .host a, .host b => decide (a.identity = b.identity)
  | _, _ => false

/-- Whether two lists have equal values in equal places. -/
def sameList : List Value → List Value → Bool
  | [], [] => true
  | a :: as, b :: bs => same a b && sameList as bs
  | _, _ => false

end

/-! ## Texts -/

/-- Floating-point numbers are written positionally from `10 ^ -4` up to below `10 ^ 16`, with a
point, and with a power of ten beyond. -/
def floatLayout : NumberLayout := ⟨some (-4), some 16, true⟩

/-- A bound in a message is written positionally, and without a point where it is whole. -/
def boundLayout : NumberLayout := ⟨none, none, false⟩

/-- The text of a truth value. -/
def boolText (b : Bool) : List Char := if b then "true".toList else "false".toList

mutual

/-- The text that tells kinds apart. -/
def debug : Value → List Char
  | .nil => "nil".toList
  | .bool b => boolText b
  | .int n => Numeric.integerNumeral n.toInt
  | .float x => floatLayout.render x
  | .char c => Text.quoteChar c
  | .string text => Text.quoteString text.toList
  | .variant name => '#' :: name.toList
  | .list items => '[' :: Text.joinWith [',', ' '] (debugList items) ++ [']']
  | .actor id => id.display
  | .host object => "Opaque(".toList ++ object.name.toList ++ [')']

/-- The texts of the entries of a list. -/
def debugList : List Value → List (List Char)
  | [] => []
  | item :: rest => debug item :: debugList rest

end

mutual

/-- The text shown to users: strings, names and characters as they are, lists with a space between
entries, and every other value as for debugging. -/
def display : Value → List Char
  | .string text => text.toList
  | .variant name => name.toList
  | .char c => [c]
  | .list items => Text.joinWith [' '] (displayList items)
  | .nil => debug .nil
  | .bool b => debug (.bool b)
  | .int n => debug (.int n)
  | .float x => debug (.float x)
  | .actor id => debug (.actor id)
  | .host object => debug (.host object)

/-- The texts of the entries of a list. -/
def displayList : List Value → List (List Char)
  | [] => []
  | item :: rest => display item :: displayList rest

end

theorem displayList_eq_map (items : List Value) : displayList items = items.map display := by
  induction items with
  | nil => rfl
  | cons item rest ih => simp [displayList, ih]

theorem debugList_eq_map (items : List Value) : debugList items = items.map debug := by
  induction items with
  | nil => rfl
  | cons item rest ih => simp [debugList, ih]

end Value

end CommandGrammar
