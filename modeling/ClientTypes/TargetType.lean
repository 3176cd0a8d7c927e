import ClientTypes.Text.Piece

/-!
Type expressions of the target language.

A type expression is kept as its text, because a configuration may replace one by any text. The
names below are the ones that the compiler itself writes.
-/

namespace ClientTypes.TargetType

/-- The type of a value about which nothing is known. -/
def fallback : String := "Value"

/-- The mark of an object that names no fields. It is no type of the target language: later steps
replace it by a map, or by the name of the model that carries it. -/
def openObject : String := "object"

def openMap : String := "HashMap<String, Value>"

def dateTime : String := "DateTime<Utc>"

/-- The type of a point in time as a format of texts gives it. -/
def qualifiedDateTime : String := "chrono::DateTime<chrono::Utc>"

def pointerSized : String := "isize"

def string : String := "String"

def integers : List String := ["i32", "i64", pointerSized]

/-- The types that stand for themselves and name no model. -/
def primitives : List String :=
  [string, "bool", "i32", "i64", pointerSized, "f32", "f64", "Vec<u8>", "Uuid", fallback,
   dateTime, qualifiedDateTime]

/-- The type of a text in a format. A format that is not listed is ignored. -/
def ofText : Option String → String
  | some "date-time" => qualifiedDateTime
  | some "binary" => "Vec<u8>"
  | some "uuid" => "Uuid"
  | _ => string

/-- The type of an integer in a format. A format that is not listed is ignored. -/
def ofInteger : Option String → String
  | some "int32" => "i32"
  | some "int64" => "i64"
  | _ => pointerSized

/-- The type of a number in a format. A format that is not listed is ignored. -/
def ofNumber : Option String → String
  | some "float" => "f32"
  | _ => "f64"

/-- The type of a primitive schema. No type and the empty type count as text; a type that is not
primitive gives an open object. -/
def ofPrimitive (type format : Option String) : String :=
  match type.getD "" with
  | "" | "string" => ofText format
  | "integer" => ofInteger format
  | "number" => ofNumber format
  | "boolean" => "bool"
  | _ => openObject

/-- A list of `inner`. -/
def listOf (inner : String) : String := "Vec<" ++ inner ++ ">"

/-- A map from texts to `inner`. -/
def mapOf (inner : String) : String := "HashMap<String, " ++ inner ++ ">"

/-- The type names no model: it is primitive, a list or a map. -/
def isBuiltIn (type : String) : Bool :=
  primitives.contains type || Text.startsWith "Vec<" type || Text.startsWith "HashMap<" type

end ClientTypes.TargetType
