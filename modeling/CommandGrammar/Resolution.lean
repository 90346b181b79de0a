import CommandGrammar.ValueType.Basic

/-!
# Resolution of declared types

A declared type is only a name for a way to get a value.  A *rule* may know one: a value type that
reads input, or an ambient source, which reads none.  Rules are asked in order and the first answer
counts.  A rule may ask the rules after it, which is how bounds and
validators wrap the type below them, or ask all rules again for another type, which is how a list
gets its entries.

The standard order puts wrappers first, then the rules of the host, then the built-in types, then
what the host wants to be asked last, and enumerations at the very end.

A derivation of the host's own may look at the host's state and change it, so an ambient source
only names it, as a declaration names its action; it is carried out when the action is about to
run.
-/

set_option autoImplicit false

namespace CommandGrammar

/-- Where a value comes from that is not read from the input. -/
inductive Ambient (α : Type) where
  /-- the identity of the actor -/
  | actor
  /-- the line as it was dispatched -/
  | input
  /-- the path of the command -/
  | command
  /-- an object that the host injects -/
  | object (object : HostObject)
  /-- a derivation that the host knows by the given name -/
  | host (name : α)

/-- How a parameter gets its value. -/
inductive Resolver (α : Type) where
  /-- by reading input -/
  | value (type : ValueType)
  /-- without reading input -/
  | ambient (source : Ambient α)

namespace Resolver

variable {α : Type}

/-- Whether input is read. -/
def isValue : Resolver α → Bool
  | .value _ => true
  | .ambient _ => false

/-- How the resolver is written when debugging. -/
def debug : Resolver α → String
  | .value type => "Value(" ++ type.name ++ ")"
  | .ambient _ => "Context"

/-- Changes the value type; an ambient source stays. -/
def mapType (f : ValueType → ValueType) : Resolver α → Resolver α
  | .value type => .value (f type)
  | .ambient source => .ambient source

end Resolver

/-- A question to rules: a parameter, and perhaps an answer. -/
abbrev Lookup (α : Type) : Type := Parameter → Option (Resolver α)

/-- Knows the resolvers of some parameters. -/
inductive Rule (α : Type) where
  /-- wraps value types in validators, where a parameter has bounds or the host has validators -/
  | validation (validators : List Validator)
  /-- wraps value types in a range, where a parameter has one -/
  | range
  /-- the scalar types -/
  | scalar
  /-- lists of any type that reads input -/
  | list
  /-- the types `actor`, `input` and `command` -/
  | surroundings
  /-- one named type -/
  | named (name : String) (resolver : Resolver α)
  /-- enumerations -/
  | enumeration (caseSensitive : Bool)
  /-- a rule of the host's own, which may ask the rules after it or all rules; of the types that it
  asks about, with all the layers below them, there are at most `reach` -/
  | host (reach : Nat) (answer : Parameter → Lookup α → Lookup α → Option (Resolver α))

namespace Rule

variable {α : Type}

/-- The validators that apply to a parameter. -/
def activeValidators (p : Parameter) (validators : List Validator) : List Validator :=
  (if p.length.isSome then [Validator.length] else [])
    ++ (if p.size.isSome then [Validator.size] else [])
    ++ validators

/-- The type of a scalar. -/
def scalarType? : DeclaredType → Option ValueType
  | .int => some .int
  | .float => some .float
  | .bool => some .bool
  | .char => some .char
  | .string => some .string
  | _ => none

/-- The source of a built-in ambient type. -/
def surroundingsSource? (name : String) : Option (Ambient α) :=
  if name = "actor" then some .actor
  else if name = "input" then some .input
  else if name = "command" then some .command
  else none

/-- A list over the resolver of its entries; an ambient source has no list. -/
def listOver? : Resolver α → Option (Resolver α)
  | .value type => some (.value (.list type))
  | .ambient _ => none

/-- Asks one rule.  `next` asks the rules after it, and `all` asks every rule. -/
def answer (rule : Rule α) (p : Parameter) (next all : Lookup α) : Option (Resolver α) :=
  match rule with
  | .validation validators =>
    match activeValidators p validators with
    | [] => none
    | active => (next p).map (Resolver.mapType fun type => .validated type p active)
  | .range =>
    match p.range with
    | none => none
    | some (min, max) => (next p).map (Resolver.mapType fun type => .ranged type min max)
  | .scalar => (scalarType? p.declared).map .value
  | .list =>
    match p.declared with
    | .list inner => (all (p.withType inner)).bind listOver?
    | _ => none
  | .surroundings =>
    match p.declared with
    | .named name => (surroundingsSource? name).map .ambient
    | _ => none
  | .named name resolver => if p.declared = .named name then some resolver else none
  | .enumeration caseSensitive =>
    match p.declared with
    | .enumeration spec => some (.value (.enumeration spec caseSensitive))
    | _ => none
  | .host _ answer => answer p next all

/-- How many types a rule brings into play besides those that a question is about. -/
def reach : Rule α → Nat
  | .host reach _ => reach
  | _ => 0

/-! ### Rules for one declared type -/

/-- Resolves one declared type. -/
def resolving (source : DeclaredType) (resolver : Resolver α) : Rule α :=
  .host 0 fun p _ _ => if p.declared = source then some resolver else none

/-- Asks the rules after this one about `target` wherever `source` is declared. -/
def handingOn (source target : DeclaredType) : Rule α :=
  .host (target.depth + 1) fun p next _ =>
    if p.declared = source then next (p.withType target) else none

/-- Asks all rules about `target` wherever `source` is declared. -/
def startingOver (source target : DeclaredType) : Rule α :=
  .host (target.depth + 1) fun p _ all =>
    if p.declared = source then all (p.withType target) else none

end Rule

/-! ## Pipelines -/

/-- Rules in the order in which they are asked. -/
structure Pipeline (α : Type) where
  rules : List (Rule α)

namespace Pipeline

variable {α : Type}

/-- Asks rules in order; `all` stands for asking every rule again. -/
def ask (all : Lookup α) : List (Rule α) → Lookup α
  | [], _ => none
  | rule :: rest, p =>
    match rule.answer p (ask all rest) all with
    | some resolver => some resolver
    | none => ask all rest p

/-- Asks every rule, with at most `depth` questions inside one another that start over. -/
def askAll (pipeline : Pipeline α) : Nat → Lookup α
  | 0, _ => none
  | depth + 1, p => ask (askAll pipeline depth) pipeline.rules p

/-- How many questions that start over can stand inside one another.  Each is about the layers of
the declared type or about a type that a rule of the host brings in, and one that comes up inside
itself has no answer, so there are no more of them than such types. -/
def depthFor (pipeline : Pipeline α) (p : Parameter) : Nat :=
  p.declared.depth + pipeline.rules.foldr (fun rule reach => rule.reach + reach) 0 + 1

/-- Asks the rules from the given index on. -/
def findFrom (pipeline : Pipeline α) (index : Nat) (p : Parameter) : Option (Resolver α) :=
  ask (pipeline.askAll (pipeline.depthFor p)) (pipeline.rules.drop index) p

/-- Resolves a parameter. -/
def resolve (pipeline : Pipeline α) (p : Parameter) : Except GrammarError (Resolver α) :=
  match pipeline.findFrom 0 p with
  | some resolver => .ok resolver
  | none => .error (.unresolvable p.name (String.ofList p.declared.display))

end Pipeline

/-! ## Putting a pipeline together -/

/-- The choices that a host makes for a pipeline. -/
structure PipelineOptions (α : Type) where
  /-- asked before the built-in types -/
  early : List (Rule α)
  /-- asked after the built-in types -/
  late : List (Rule α)
  /-- objects injected by type name -/
  dependencies : List (String × HostObject)
  validators : List Validator
  caseSensitiveEnumerations : Bool

namespace PipelineOptions

variable {α : Type}

/-- No rules but the built-in ones. -/
def standard : PipelineOptions α := ⟨[], [], [], [], false⟩

instance : Inhabited (PipelineOptions α) := ⟨standard⟩

/-- Adds a rule behind the early ones. -/
def addRule (o : PipelineOptions α) (rule : Rule α) : PipelineOptions α :=
  { o with early := o.early ++ [rule] }

/-- Inserts a rule among the early ones; an index beyond their end adds it behind them. -/
def insertRule (o : PipelineOptions α) (index : Nat) (rule : Rule α) : PipelineOptions α :=
  { o with early := o.early.take index ++ rule :: o.early.drop index }

/-- Adds a rule behind the late ones. -/
def addLateRule (o : PipelineOptions α) (rule : Rule α) : PipelineOptions α :=
  { o with late := o.late ++ [rule] }

/-- Gives a value type a name. -/
def addType (o : PipelineOptions α) (name : String) (type : ValueType) : PipelineOptions α :=
  o.addRule (.named name (.value type))

/-- Gives an ambient source a name. -/
def addAmbient (o : PipelineOptions α) (name : String) (source : Ambient α) :
    PipelineOptions α :=
  o.addRule (.named name (.ambient source))

/-- Injects an object under a type name. -/
def addDependency (o : PipelineOptions α) (name : String) (object : HostObject) :
    PipelineOptions α :=
  { o with dependencies := o.dependencies ++ [(name, object)] }

/-- Adds a validator for every parameter. -/
def addValidator (o : PipelineOptions α) (v : Validator) : PipelineOptions α :=
  { o with validators := o.validators ++ [v] }

/-- The rule that injects an object. -/
def dependencyRule (d : String × HostObject) : Rule α :=
  .named d.1 (.ambient (.object d.2))

/-- The standard order of rules. -/
def build (o : PipelineOptions α) : Pipeline α :=
  ⟨[.validation o.validators, .range] ++ o.early ++ [.scalar, .list, .surroundings]
    ++ o.dependencies.map dependencyRule ++ o.late ++ [.enumeration o.caseSensitiveEnumerations]⟩

end PipelineOptions

/-- The pipeline of a host that makes no choices. -/
def Pipeline.standard (α : Type) : Pipeline α := PipelineOptions.standard.build

instance (α : Type) : Inhabited (Pipeline α) := ⟨Pipeline.standard α⟩

end CommandGrammar
