import CommandGrammar.Cursor.Basic
import CommandGrammar.Error

/-!
# Path tokens

A path declares where a command stands: words that must occur as they are, and placeholders for
parameters.  `<name>` places a parameter as it was declared and `[name]` makes it optional.  Tokens
are separated by blanks; a placeholder ends at its own closing bracket, so two placeholders may
touch, and a word runs up to the next blank whatever it contains.
-/

set_option autoImplicit false

namespace CommandGrammar

/-- A token of a path. -/
inductive Token where
  /-- a word that must occur in the input -/
  | word (text : String)
  /-- a place for the parameter `name` -/
  | placeholder (name : String) (optional : Bool)
  deriving DecidableEq, Repr, Inhabited

namespace Token

/-- The word or the parameter's name. -/
def name : Token → String
  | .word text => text
  | .placeholder name _ => name

/-- Whether the token is a word. -/
def isWord : Token → Bool
  | .word _ => true
  | .placeholder _ _ => false

/-- How the token is written in a path. -/
def render : Token → List Char
  | .word text => text.toList
  | .placeholder name false => '<' :: name.toList ++ ['>']
  | .placeholder name true => '[' :: name.toList ++ [']']

end Token

/-! ## Reading tokens -/

namespace Path

/-- What reading one token gives: the token, `none` at the end of the path, or an error. -/
abbrev Reading : Type := Except GrammarError (Option Token) × Cursor

/-- Reads a placeholder whose opening bracket is at the cursor. -/
def readPlaceholder (close : Char) (optional : Bool) (c : Cursor) : Reading :=
  let (name, atClose) := c.skipOne.readWhile fun x => decide (x ≠ close) && Text.isInk x
  let (bracket, after) := atClose.next
  let path := String.ofList c.source
  if bracket ≠ some close then (.error (.unterminatedPlaceholder path), after)
  else if name.isEmpty then (.error (.emptyPlaceholder path c.position), after)
  else (.ok (some (.placeholder (String.ofList name) optional)), after)

/-- Reads the next token. -/
def readToken (c : Cursor) : Reading :=
  let start := c.skipBlanks
  match start.peek? with
  | none => (.ok none, start)
  | some '<' => readPlaceholder '>' false start
  | some '[' => readPlaceholder ']' true start
  | some _ =>
    let (word, after) := start.readWord
    (.ok (some (.word (String.ofList word))), after)

/-- Whether another token, or a faulty one, follows. -/
def hasMore (c : Cursor) : Bool := !(Text.trimLeft c.rest).isEmpty

/-- Reads tokens until the path ends, at most `fuel` of them. -/
def readTokens : Nat → Cursor → Except GrammarError (List Token)
  | 0, _ => .ok []
  | fuel + 1, c =>
    match readToken c with
    | (.error e, _) => .error e
    | (.ok none, _) => .ok []
    | (.ok (some token), after) =>
      match readTokens fuel after with
      | .error e => .error e
      | .ok tokens => .ok (token :: tokens)

/-- The tokens of a path.  Each takes at least one character, so there are no more of them than
characters. -/
def tokenize (path : String) : Except GrammarError (List Token) :=
  match readTokens path.toList.length (Cursor.ofText path.toList) with
  | .error e => .error e
  | .ok [] => .error .emptyPath
  | .ok tokens => .ok tokens

end Path

end CommandGrammar
