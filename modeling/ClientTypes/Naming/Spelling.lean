import ClientTypes.Naming.Words
import ClientTypes.Table

/-!
Spelling names so that the target language accepts them.

Type names, field names and the names of enumeration members each have a shape: no leading digit,
no reserved word, never empty. Each function here takes any text and gives a name of its shape.
-/

namespace ClientTypes.Naming

open ClientTypes.Text

def reservedWords : List String :=
  ["as", "async", "await", "break", "const", "continue", "crate", "dyn", "else", "enum",
   "extern", "false", "fn", "for", "if", "impl", "in", "let", "loop", "match", "mod",
   "move", "mut", "pub", "ref", "return", "self", "static", "struct", "super", "trait",
   "true", "type", "unsafe", "use", "where", "while", "abstract", "become", "box", "do",
   "final", "macro", "override", "priv", "typeof", "unsized", "virtual", "yield", "try"]

def isReserved (name : String) : Bool := reservedWords.contains name

/-- The text begins with a digit `0` to `9`. -/
def startsWithDigit (s : List Char) : Bool := (s.head?.map Char.isDigit).getD false

/-- The type name of a schema: camel case, with `Model` put before a reserved word or a leading
digit. A name without a word becomes `Object`. -/
def typeName (name : String) : String :=
  let model := camelChars name.toList
  if model = [] then "Object"
  else if startsWithDigit model || isReserved (String.ofList (model.map Char.toLower)) then
    "Model" ++ String.ofList model
  else String.ofList model

/-- The field name of a property: snake case, with an underscore put before a reserved word, a
leading digit, or a name that began with one. A name without a word becomes `_`. -/
def fieldName (name : String) : String :=
  let field := bareSnakeChars name.toList
  if field = [] then "_"
  else if name.toList.head? == some '_' || isReserved (String.ofList field) ||
      startsWithDigit field then
    "_" ++ String.ofList field
  else String.ofList field

/-- The field name of a property, unless the table gives a name for it. -/
def fieldNameBy (given : Table String String) (name : String) : String :=
  (given.get? name).getD (fieldName name)

/-- The name of an enumeration member shown as `text`: upper snake case, with an underscore put
before a leading digit. A text without a word becomes `EMPTY`. -/
def memberName (text : String) : String :=
  let member := upperSnakeChars text.toList
  if member = [] then "EMPTY"
  else if startsWithDigit member then "_" ++ String.ofList member
  else String.ofList member

/-- Cut the first place where ASCII letters or digits are followed by a slash, wherever it is. The
first argument collects the letters and digits read since the last other character, last one
first. -/
def cutGroup (run : List Char) : List Char → List Char
  | [] => run.reverse
  | c :: rest =>
    if isWordChar c then cutGroup (c :: run) rest
    else if c = '/' ∧ run ≠ [] then rest
    else run.reverse ++ c :: cutGroup [] rest

/-- The name of an operation without its group: `incidents/list_incidents` becomes
`list_incidents`. The group that is cut is the first run of letters and digits before a slash, which
need not be at the front. -/
def operationName (id : String) : String := String.ofList (cutGroup [] id.toList)

end ClientTypes.Naming
