import ClientTypes.Text.Piece

/-!
References to schemas.

A reference names a schema of the document, with or without the place where schemas are kept, and
may go on with a path into that schema: `Parent/allOf/0/properties/field`.
-/

namespace ClientTypes.Naming

open ClientTypes.Text

def schemaPlaces : List String := ["#/components/schemas/", "#/definitions/"]

/-- A reference without the place of schemas in front: `#/components/schemas/Tag` becomes `Tag`. A
reference that begins otherwise is kept whole. -/
def referenceName (reference : String) : String :=
  (schemaPlaces.findSome? (dropFront? · reference)).getD reference

/-- A reference, read as the schema it names and the path that it follows from there. -/
structure Pointer where
  schema : String
  path : List String
deriving DecidableEq, Repr

/-- Read a reference: the name up to the first slash, then the segments of the path. -/
def Pointer.ofReference (reference : String) : Pointer :=
  match split '/' (referenceName reference) with
  | [] => ⟨"", []⟩
  | schema :: path => ⟨schema, path⟩

end ClientTypes.Naming
