/-!
# Joining texts

Rendered paths, lists of names and lists of values are joined with a fixed text between any two
neighbours.
-/

set_option autoImplicit false

namespace CommandGrammar.Text

/-- Puts `separator` between texts. -/
def joinWith (separator : List Char) : List (List Char) → List Char
  | [] => []
  | [text] => text
  | text :: next :: rest => text ++ separator ++ joinWith separator (next :: rest)

@[simp] theorem joinWith_nil (separator : List Char) : joinWith separator [] = [] := rfl

@[simp] theorem joinWith_singleton (separator text : List Char) :
    joinWith separator [text] = text := rfl

theorem joinWith_cons_cons (separator text next : List Char) (rest : List (List Char)) :
    joinWith separator (text :: next :: rest)
      = text ++ separator ++ joinWith separator (next :: rest) := rfl

/-- The names, with a comma and a space between any two. -/
def enumerate (names : List String) : String :=
  String.ofList (joinWith [',', ' '] (names.map String.toList))

end CommandGrammar.Text
