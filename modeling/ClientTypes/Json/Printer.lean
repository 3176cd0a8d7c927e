import ClientTypes.Value.Display

/-!
Values as JSON text.

The text is either on one line without blanks, or on many lines with two blanks for each level.
Texts keep their characters as they are, except for the quote, the backslash and the control
characters. A key that is no text is written as a text, and so are days and moments. A collection that
stands inside itself has no text; the place where it does is written as null.
-/

namespace ClientTypes.Json

open Decimal

def stringChar (c : Char) : List Char :=
  if c = '"' then ['\\', '"']
  else if c = '\\' then ['\\', '\\']
  else if c = '\n' then ['\\', 'n']
  else if c = '\r' then ['\\', 'r']
  else if c = '\t' then ['\\', 't']
  else if c = '\x08' then ['\\', 'b']
  else if c = '\x0c' then ['\\', 'f']
  else if c.toNat < 0x20 then '\\' :: 'u' :: hexDigits 4 c.toNat
  else [c]

def string (s : String) : String :=
  String.ofList ('"' :: s.toList.flatMap stringChar ++ ['"'])

/-- A moment: day and time with a letter between them, and a letter for universal time. -/
def momentText (d : Date) (c : Clock) : String :=
  d.display ++ "T" ++ String.ofList (c.textWith ['Z'])

def scalar : Scalar → String
  | .null => "null"
  | .bool true => "true"
  | .bool false => "false"
  | .int n => toString n
  | .float x => fileLayout.render x
  | .text s => string s
  | .date d => string d.display
  | .moment d c => string (momentText d c)

/-- A key. Keys are texts: a truth value is written as its word, a moment as it is written elsewhere, and
any other scalar as it displays. -/
def key : Scalar → String
  | .bool true => string "true"
  | .bool false => string "false"
  | .moment d c => string (momentText d c)
  | .null => string "None"
  | .text s => string s
  | .date d => string d.display
  | .int n => string (toString n)
  | .float x => string (textLayout.render x)

inductive Arrangement where
  | oneLine
  | indented
deriving DecidableEq

/-- The text between the bracket and the first part, at a level of nesting. -/
def Arrangement.opening (level : Nat) : Arrangement → String
  | .oneLine => ""
  | .indented => "\n" ++ String.ofList (List.replicate (2 * level) ' ')

/-- The text between two parts, at a level of nesting. -/
def Arrangement.between (level : Nat) (a : Arrangement) : String := "," ++ a.opening level

def Arrangement.colon : Arrangement → String
  | .oneLine => ":"
  | .indented => ": "

mutual
/-- A value at a level of nesting. -/
def renderAt (a : Arrangement) (level : Nat) : Value → String
  | .scalar s => scalar s
  | .loop _ | .beyond => "null"
  | .knot _ v => renderAt a level v
  | .list [] => "[]"
  | .list (v :: rest) =>
    "[" ++ a.opening (level + 1) ++ renderAt a (level + 1) v ++ renderItems a (level + 1) rest ++
      a.opening level ++ "]"
  | .map [] => "\x7b\x7d"
  | .map ((k, v) :: rest) =>
    "\x7b" ++ a.opening (level + 1) ++ key k ++ a.colon ++ renderAt a (level + 1) v ++
      renderEntries a (level + 1) rest ++ a.opening level ++ "\x7d"
/-- The items of a list after the first one. -/
def renderItems (a : Arrangement) (level : Nat) : List Value → String
  | [] => ""
  | v :: rest => a.between level ++ renderAt a level v ++ renderItems a level rest
/-- The entries of a mapping after the first one. -/
def renderEntries (a : Arrangement) (level : Nat) : List (Scalar × Value) → String
  | [] => ""
  | (k, v) :: rest =>
    a.between level ++ key k ++ a.colon ++ renderAt a level v ++
      renderEntries a level rest
end

mutual
/-- The value has a text: it comes to an end, and its integers are few enough digits long. -/
def isRenderable : Value → Bool
  | .scalar (.int n) => isWritable n
  | .scalar _ => true
  | .loop _ | .beyond => false
  | .knot _ v => isRenderable v
  | .list items => areItemsRenderable items
  | .map entries => areEntriesRenderable entries
def areItemsRenderable : List Value → Bool
  | [] => true
  | v :: rest => isRenderable v && areItemsRenderable rest
def areEntriesRenderable : List (Scalar × Value) → Bool
  | [] => true
  | (_, v) :: rest => isRenderable v && areEntriesRenderable rest
end

/-- A value as JSON text. -/
def render (a : Arrangement) (v : Value) : String := renderAt a 0 v

end ClientTypes.Json
