import CommandGrammar.Command
import CommandGrammar.Declaration
import CommandGrammar.Path.Token

/-!
# Compiling declarations

A declaration and one of its paths become a chain of nodes:

1. the words and placeholders of the path, in order; each placeholder takes the parameter it names;
2. the parameters that the path does not mention, in the order of their declaration; one that is
   resolved from the context goes into the body instead;
3. flags and switches behind everything that is matched by place;
4. the last positional slot in its greedy variant, where its type has one and the parameter does
   not ask for a single word.

A chain must start with a word, must not go on with a word or a required slot after an optional
one, may have one greedy slot at its end, and must not use a flag name twice.  The first rule that
is broken, in the order of the steps, is the error.
-/

set_option autoImplicit false

namespace CommandGrammar

/-! ## Chains under construction -/

/-- Whether a segment is an optional slot. -/
def Segment.isOptional : Segment → Bool
  | .word _ => false
  | .slot s => s.isOptional

/-- The name of a segment that is a greedy slot. -/
def Segment.greedyName? : Segment → Option String
  | .word _ => none
  | .slot s => if s.isGreedy then some s.name else none

/-- The segments collected so far. -/
structure Chain where
  /-- the path that is compiled, for messages -/
  path : String
  positional : List Segment
  flags : List Slot

namespace Chain

/-- A chain without segments. -/
def empty (path : String) : Chain := ⟨path, [], []⟩

/-- Whether an optional slot has been placed. -/
def sawOptional (c : Chain) : Bool := c.positional.any Segment.isOptional

/-- Adds a word. -/
def addWord (c : Chain) (word : String) : Except GrammarError Chain :=
  if c.sawOptional then .error (.literalAfterOptional word c.path)
  else .ok { c with positional := c.positional ++ [.word word] }

/-- Adds a flag or a switch, whose names must be new. -/
def addFlag (c : Chain) (s : Slot) : Except GrammarError Chain :=
  let longTaken := s.longName?.filter fun long => c.flags.any fun f => f.longName? = some long
  let shortTaken := s.shorthand?.filter fun short => c.flags.any fun f => f.shorthand? = some short
  match longTaken, shortTaken with
  | some long, _ => .error (.duplicateLongName long)
  | none, some short => .error (.duplicateShorthand short)
  | none, none => .ok { c with flags := c.flags ++ [s] }

/-- Adds a slot that is matched by place. -/
def addPositional (c : Chain) (s : Slot) : Except GrammarError Chain :=
  if !s.isOptional && c.sawOptional then .error (.requiredAfterOptional s.name c.path)
  else .ok { c with positional := c.positional ++ [.slot s] }

/-- Adds a slot. -/
def addSlot (c : Chain) (s : Slot) : Except GrammarError Chain :=
  if c.positional.isEmpty then .error (.leadingParameter s.name)
  else if s.isPositional then c.addPositional s
  else c.addFlag s

end Chain

/-! ## Placing parameters -/

namespace Compile

variable {α : Type}

/-- The first parameter with a name, and the others. -/
def takeParameter? (name : String) : List Parameter → Option (Parameter × List Parameter)
  | [] => none
  | p :: rest =>
    if p.name = name then some (p, rest)
    else (takeParameter? name rest).map fun found => (found.1, p :: found.2)

/-- The chain and the parameters that no placeholder has taken. -/
structure Placed where
  chain : Chain
  available : List Parameter

/-- Places one placeholder. -/
def placePlaceholder (pipeline : Pipeline α) (name : String) (optional : Bool) (state : Placed) :
    Except GrammarError Placed :=
  match takeParameter? name state.available with
  | none =>
    .error (.unknownPlaceholder name (Text.enumerate (state.available.map Parameter.name)))
  | some (p, available) =>
    match pipeline.resolve p with
    | .error e => .error e
    | .ok (.ambient _) => .error (.ambientPlaceholder name)
    | .ok (.value type) =>
      let slot := Slot.ofParameter p type
      match state.chain.addSlot { slot with isOptional := slot.isOptional || optional } with
      | .error e => .error e
      | .ok chain => .ok ⟨chain, available⟩

/-- Places the tokens of a path; `seen` holds the names of the placeholders before them. -/
def placeTokens (pipeline : Pipeline α) (seen : List String) :
    List Token → Placed → Except GrammarError Placed
  | [], state => .ok state
  | .word text :: rest, state =>
    match state.chain.addWord text with
    | .error e => .error e
    | .ok chain => placeTokens pipeline seen rest { state with chain := chain }
  | .placeholder name optional :: rest, state =>
    if name ∈ seen then .error (.duplicatePlaceholder name)
    else
      match placePlaceholder pipeline name optional state with
      | .error e => .error e
      | .ok state => placeTokens pipeline (name :: seen) rest state

/-- Places the parameters that the path does not mention; those that read no input are handed to
the body. -/
def placeRest (pipeline : Pipeline α) :
    List Parameter → Chain → Except GrammarError (Chain × List (Parameter × Ambient α))
  | [], chain => .ok (chain, [])
  | p :: rest, chain =>
    match pipeline.resolve p with
    | .error e => .error e
    | .ok (.value type) =>
      match chain.addSlot (Slot.ofParameter p type) with
      | .error e => .error e
      | .ok chain => placeRest pipeline rest chain
    | .ok (.ambient source) =>
      match placeRest pipeline rest chain with
      | .error e => .error e
      | .ok (chain, ambients) => .ok (chain, (p, source) :: ambients)

/-! ## Finishing a chain -/

/-- A slot in its greedy variant, where it has one and may use it. -/
def promote (s : Slot) : Slot :=
  if s.parameter.single then s
  else
    match s.type.greedyVariant? with
    | some variant => { s with type := variant }
    | none => s

/-- Promotes the last segment. -/
def promoteLast : List Segment → List Segment
  | [] => []
  | [.slot s] => [.slot (promote s)]
  | [.word text] => [.word text]
  | s :: t :: rest => s :: promoteLast (t :: rest)

/-- A greedy slot must be the only one and the last. -/
def checkGreedy (positional : List Segment) : Except GrammarError Unit :=
  match positional.filterMap Segment.greedyName? with
  | [] => .ok ()
  | [name] =>
    if (positional.getLast?.bind Segment.greedyName?).isSome then .ok ()
    else .error (.greedyNotLast name)
  | first :: second :: _ => .error (.severalGreedy first second)

/-- Marks the last node and the nodes at which the command may end. -/
def markNodes : List Segment → List Node
  | [] => []
  | [s] => [⟨s, true, true⟩]
  | s :: t :: rest => ⟨s, false, s.isOptional⟩ :: markNodes (t :: rest)

/-- The nodes of a finished chain. -/
def finish (chain : Chain) : Except GrammarError (List Node) :=
  let positional := promoteLast chain.positional
  match checkGreedy positional with
  | .error e => .error e
  | .ok () => .ok (markNodes (positional ++ chain.flags.map .slot))

/-! ## Whole declarations -/

/-- What must hold of a declaration whatever its path. -/
def checkDeclaration (d : Declaration α) (path : String) : Except GrammarError Unit :=
  if d.metadata.priority.isSome && d.metadata.lowPriority then .error (.conflictingPriority path)
  else
    match d.parameters.find? Parameter.flagAndSwitch with
    | some p => .error (.flagAndSwitch p.name)
    | none => .ok ()

/-- Places the tokens of a path and then the other parameters. -/
def placeAll (pipeline : Pipeline α) (d : Declaration α) (path : String) (tokens : List Token) :
    Except GrammarError (Chain × List (Parameter × Ambient α)) :=
  match placeTokens pipeline [] tokens ⟨.empty path, d.parameters⟩ with
  | .error e => .error e
  | .ok placed => placeRest pipeline placed.available placed.chain

/-- Compiles a declaration at one path. -/
def compile (pipeline : Pipeline α) (d : Declaration α) (path : String) (id : CommandId) :
    Except GrammarError (Command α) :=
  match checkDeclaration d path with
  | .error e => .error e
  | .ok () =>
    match Path.tokenize path with
    | .error e => .error e
    | .ok tokens =>
      match placeAll pipeline d path tokens with
      | .error e => .error e
      | .ok (chain, ambients) =>
        match finish chain with
        | .error e => .error e
        | .ok nodes => .ok ⟨id, nodes, d.metadata, ⟨d.action, ambients⟩⟩

/-- Compiles a declaration at each of the paths, giving out identities from `first` on. -/
def compilePaths (pipeline : Pipeline α) (d : Declaration α) :
    Nat → List String → Except GrammarError (List (Command α))
  | _, [] => .ok []
  | first, path :: rest =>
    match compile pipeline d path ⟨first⟩ with
    | .error e => .error e
    | .ok command =>
      match compilePaths pipeline d (first + 1) rest with
      | .error e => .error e
      | .ok commands => .ok (command :: commands)

/-- Compiles a declaration at all its paths; the first error counts. -/
def compileAll (pipeline : Pipeline α) (d : Declaration α) (first : Nat) :
    Except GrammarError (List (Command α)) :=
  match d.paths with
  | [] => .error .noPaths
  | paths => compilePaths pipeline d first paths

/-- Compiles several declarations at all their paths, giving out identities in order. -/
def compileEach (pipeline : Pipeline α) :
    Nat → List (Declaration α) → Except GrammarError (List (Command α))
  | _, [] => .ok []
  | first, d :: rest =>
    match compileAll pipeline d first with
    | .error e => .error e
    | .ok commands =>
      match compileEach pipeline (first + commands.length) rest with
      | .error e => .error e
      | .ok others => .ok (commands ++ others)

end Compile

end CommandGrammar
