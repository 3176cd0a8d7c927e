import ClientTypes.Table

/-!
Identifiers inside a type expression, and renaming them.

A type expression is a text such as `Vec<Incident>`. Renaming replaces whole identifiers and leaves
every other character in place. The scan takes the longest identifier from the left, so a digit
that follows a letter belongs to the identifier, and a digit that follows a bracket does not.
-/

namespace ClientTypes.Naming

/-- An ASCII letter or an underscore: what an identifier begins with. -/
def startsIdentifier (c : Char) : Bool := c.isAlpha || c == '_'

/-- An ASCII letter, a digit or an underscore: what an identifier goes on with. -/
def continuesIdentifier (c : Char) : Bool := c.isAlphanum || c == '_'

/-- A part of a type expression: an identifier, or one character that is in none. -/
inductive Token where
  | identifier (name : List Char)
  | mark (c : Char)
deriving DecidableEq, Repr

def Token.text : Token → List Char
  | .identifier name => name
  | .mark c => [c]

/-- Scan a type expression. The first argument is the identifier being read, last character
first, or empty between identifiers. -/
def tokensFrom (name : List Char) : List Char → List Token
  | [] => if name = [] then [] else [.identifier name.reverse]
  | c :: rest =>
    if name = [] then
      if startsIdentifier c then tokensFrom [c] rest else .mark c :: tokensFrom [] rest
    else if continuesIdentifier c then tokensFrom (c :: name) rest
    else .identifier name.reverse :: .mark c :: tokensFrom [] rest

def tokens (expression : String) : List Token := tokensFrom [] expression.toList

/-- The identifiers of a type expression, in order. -/
def identifiers (expression : String) : List String :=
  (tokens expression).filterMap fun
    | .identifier name => some (String.ofList name)
    | .mark _ => none

/-- Replace an identifier that the table names; keep every other token. -/
def Token.rename (renames : Table String String) : Token → List Char
  | .identifier name => ((renames.get? (String.ofList name)).getD (String.ofList name)).toList
  | .mark c => [c]

/-- Rename every identifier of a type expression that the table names. -/
def renameIdentifiers (renames : Table String String) (expression : String) : String :=
  String.ofList ((tokens expression).flatMap (·.rename renames))

end ClientTypes.Naming
