import ClientTypes.Value

/-!
Schemas of an API description.

A schema is a tree: properties, items, members of compositions and values of maps are schemas again.
A schema may instead refer to another one by name; references are texts here and are looked up in
the table of schemas later, so a table may be cyclic although every tree in it is finite.
-/

namespace ClientTypes

inductive SchemaKind where
  | object
  | array
  | map
  | primitive
  | composed
deriving DecidableEq, Repr

/-- What a schema says about the entries that its properties do not name. -/
inductive Additional (α : Type) where
  /-- Nothing is said. -/
  | unstated
  /-- There are none. -/
  | closed
  /-- There may be any. -/
  | anything
  /-- Each one follows a schema. -/
  | each (schema : α)
deriving Repr

/-- A schema: a definition, a property, or a part of one of them. -/
structure Schema where
  kind : SchemaKind := .object
  /-- The primitive type that is named, or the name of the kind. -/
  type : Option String := none
  format : Option String := none
  reference : Option String := none
  title : Option String := none
  description : Option String := none
  properties : List (String × Schema) := []
  required : List String := []
  items : Option Schema := none
  additional : Additional Schema := .unstated
  allOf : List Schema := []
  oneOf : List Schema := []
  anyOf : List Schema := []
  enum : List Value := []
  nullable : Bool := false
  extensions : Table String Value := []
deriving Repr

namespace Schema

instance : Inhabited Schema := ⟨{}⟩

/-- The reference that a schema follows. The empty text refers to nothing. -/
def target? (s : Schema) : Option String := s.reference.filter (· ≠ "")

/-- The members of a union: those of `oneOf`, or those of `anyOf` when there are none. -/
def unionMembers (s : Schema) : List Schema := if s.oneOf.isEmpty then s.anyOf else s.oneOf

def isMerge (s : Schema) : Bool := s.kind == .composed && !s.allOf.isEmpty

def allowsAnything (s : Schema) : Bool :=
  match s.additional with
  | .anything => true
  | _ => false

/-- A map that also names properties and allows any entry beside them. -/
def isMapWithProperties (s : Schema) : Bool :=
  s.kind == .map && !s.properties.isEmpty && s.allowsAnything

/-- A schema with something to merge: a reference, properties, or members of a merge. -/
def hasShape (s : Schema) : Bool := s.target?.isSome || !s.properties.isEmpty || s.isMerge

mutual
/-- The number of schemas in a tree, itself included. -/
def size : Schema → Nat
  | { properties, items, additional, allOf, oneOf, anyOf, .. } =>
    1 + sizeOfProperties properties + sizeOfItems items + sizeOfAdditional additional +
      sizeOfMembers allOf + sizeOfMembers oneOf + sizeOfMembers anyOf
def sizeOfProperties : List (String × Schema) → Nat
  | [] => 0
  | (_, s) :: rest => s.size + sizeOfProperties rest
def sizeOfItems : Option Schema → Nat
  | none => 0
  | some s => s.size
def sizeOfAdditional : Additional Schema → Nat
  | .each s => s.size
  | _ => 0
def sizeOfMembers : List Schema → Nat
  | [] => 0
  | s :: rest => s.size + sizeOfMembers rest
end

end Schema

end ClientTypes
