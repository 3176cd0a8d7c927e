import ClientTypes.Document
import ClientTypes.Schema.Conversion
import ClientTypes.Naming.Reference

/-!
Moving the schemas of bodies and responses into the table of the document.

A body or response that describes an object, a map with properties, or a composition in its own
place gets a name by number: `body_1`, `body_2`, and so on for bodies; `inline_response_200`, then
`inline_response_200_1`, and so on for the responses of one code. A reference keeps the name that it
refers to, and a simple schema gets no name.
-/

namespace ClientTypes.Document

/-- The table of schemas while operations are read, and how many names were given. -/
structure Hoisting where
  schemas : List (Scalar × Schema)
  bodies : Nat := 0
  responses : Table String Nat := []

/-- Write a schema into the table: in place when its name is there, at the end otherwise. -/
def putSchema (schemas : List (Scalar × Schema)) (name : Scalar) (schema : Schema) :
    List (Scalar × Schema) :=
  match schemas with
  | [] => [(name, schema)]
  | (k, s) :: rest =>
    if k.sameKey name then (k, schema) :: rest else (k, s) :: putSchema rest name schema

def isHoistable (s : Schema) : Bool :=
  match s.kind with
  | .composed => true
  | .object | .map => !s.properties.isEmpty
  | .array | .primitive => false

def bodyName (number : Nat) : String := "body_" ++ toString number

/-- The name of a response of a code, after `count` others of the same code. -/
def responseName (code : String) (count : Nat) : String :=
  if count = 0 then "inline_response_" ++ code
  else "inline_response_" ++ code ++ "_" ++ toString count

/-- Name the schema of a body, and move it into the table when it has no name yet. -/
def Hoisting.placeBody (h : Hoisting) (s : Schema) : Option String × Hoisting :=
  match s.target? with
  | some reference => (some (Naming.referenceName reference), h)
  | none =>
    if isHoistable s then
      let name := bodyName (h.bodies + 1)
      (some name, { h with bodies := h.bodies + 1, schemas := putSchema h.schemas (.text name) s })
    else (none, h)

/-- Name the schema of a response, and move it into the table when it has no name yet. -/
def Hoisting.placeResponse (h : Hoisting) (code : String) (s : Schema) :
    Option String × Hoisting :=
  match s.target? with
  | some reference => (some (Naming.referenceName reference), h)
  | none =>
    if isHoistable s then
      let count := (h.responses.get? code).getD 0
      let name := responseName code count
      (some name, { h with
        responses := h.responses.put code (count + 1)
        schemas := putSchema h.schemas (.text name) s })
    else (none, h)

end ClientTypes.Document
