import ClientTypes.Schema
import ClientTypes.Document.Fault
import ClientTypes.Text.Piece

/-!
Values as schemas.

A value is read in one of three roles: as a schema, as the members of a composition, or as the
properties of an object. Which one is asked for depends on what is around the value, so a value is read
into all three, each to be computed when it is asked for; a role that is never asked for may well be
a fault. A value that is no mapping is a schema without any content.

The kind of a schema is decided by the first rule that fits: a reference, a composition, an array,
a map, a primitive type, and otherwise an object.
-/

namespace ClientTypes

open Text

structure SchemaRoles where
  schema : Unit → Except DocumentFault Schema
  members : Unit → Except DocumentFault (List Schema)
  properties : Unit → Except DocumentFault (List (Scalar × Schema))

def primitiveTypes : List String := ["string", "integer", "number", "boolean"]

/-- The entries of a mapping whose keys begin with `x-`. A key that is no text is a fault. -/
def extensionsOf : List (Scalar × Value) → Except DocumentFault (Table String Value)
  | [] => .ok []
  | (.text k, v) :: rest =>
    (extensionsOf rest).map fun more => if startsWith "x-" k then (k, v) :: more else more
  | _ :: _ => .error .noMembers

/-- The keys of converted properties as texts. -/
def checkedProperties : List (Scalar × Schema) → Checked (List (String × Schema))
  | [] => .valid []
  | (k, s) :: rest =>
    ((Checked.textKey k).map fun key more => (key, s) :: more).apply (checkedProperties rest)

/-- The parts of a schema that do not depend on its kind. -/
structure CommonParts where
  title : Value
  description : Value
  format : Value
  enum : Value
  nullable : Value
  extensions : Table String Value

/-- The first of two fields that is given; the second one, or false, when the first is not. -/
def nullableOf (entries : List (Scalar × Value)) : Value :=
  let first := (field? entries "nullable").getD (.bool false)
  if first.isGiven then first else (field? entries "x-nullable").getD (.bool false)

/-- Pick the parts that every kind of schema has. -/
def commonParts (entries : List (Scalar × Value)) : Except DocumentFault CommonParts :=
  (extensionsOf entries).map fun extensions =>
    { title := (field? entries "title").getD .null
      description := (field? entries "description").getD .null
      format := (field? entries "format").getD .null
      enum := (field? entries "enum").getD (.list [])
      nullable := nullableOf entries
      extensions }

/-- The parts of a schema that depend on its kind, not yet checked. -/
structure KindParts where
  kind : SchemaKind
  type : Value := .null
  reference : Value := .null
  properties : List (Scalar × Schema) := []
  required : Value := .list []
  items : Option Schema := none
  additional : Additional Schema := .unstated
  allOf : List Schema := []
  oneOf : List Schema := []
  anyOf : List Schema := []

def assemble (common : CommonParts) (own : KindParts) : Checked Schema :=
  (fun type format reference title description properties required enum nullable =>
    { kind := own.kind, type, format, reference, title, description, properties, required,
      items := own.items, additional := own.additional, allOf := own.allOf, oneOf := own.oneOf,
      anyOf := own.anyOf, enum, nullable, extensions := common.extensions })
  <$> (Checked.optional .text own.type).inside (.field "type")
  <*> (Checked.optional .text common.format).inside (.field "format")
  <*> (Checked.optional .text own.reference).inside (.field "ref")
  <*> (Checked.optional .text common.title).inside (.field "title")
  <*> (Checked.optional .text common.description).inside (.field "description")
  <*> (checkedProperties own.properties).inside (.field "properties")
  <*> (Checked.listOf .text own.required).inside (.field "required")
  <*> (Checked.listOf .any common.enum).inside (.field "enum")
  <*> (Checked.flag common.nullable).inside (.field "nullable")

def roles? (readings : List (Scalar × SchemaRoles)) (name : String) : Option SchemaRoles :=
  match readings with
  | [] => none
  | (k, r) :: rest => if k = .text name then some r else roles? rest name

/-- The properties of a mapping; none when they are not given. -/
def propertiesOf (readings : List (Scalar × SchemaRoles)) :
    Except DocumentFault (List (Scalar × Schema)) :=
  match roles? readings "properties" with
  | some r => r.properties ()
  | none => .ok []

/-- The members of a composition under one of its keys; none when the key is not there. -/
def membersOf (readings : List (Scalar × SchemaRoles)) (name : String) :
    Except DocumentFault (List Schema) :=
  match roles? readings name with
  | some r => r.members ()
  | none => .ok []

/-- The parts of a composition. Properties are read before members, and the members in the order
`allOf`, `oneOf`, `anyOf`; the first fault wins. -/
def composedParts (entries : List (Scalar × Value)) (readings : List (Scalar × SchemaRoles)) :
    Except DocumentFault KindParts := do
  let properties ← propertiesOf readings
  let allOf ← membersOf readings "allOf"
  let oneOf ← membersOf readings "oneOf"
  let anyOf ← membersOf readings "anyOf"
  return { kind := .composed
           type := (field? entries "type").getD .null
           properties
           required := (field? entries "required").getD (.list [])
           allOf, oneOf, anyOf }

/-- The parts of an array. Items that are not described are objects without properties. -/
def arrayParts (readings : List (Scalar × SchemaRoles)) : Except DocumentFault KindParts := do
  let items ← match roles? readings "items" with
    | some r => r.schema ()
    | none => .ok { type := some "object" }
  return { kind := .array, type := .text "array", items := some items }

/-- What is said about further entries when it makes the schema a map: any entry is allowed, or each
follows a schema. The empty mapping allows any entry. -/
def mapValues? (entries : List (Scalar × Value)) (readings : List (Scalar × SchemaRoles)) :
    Option (Except DocumentFault (Additional Schema)) :=
  match (field? entries "additionalProperties").map Value.opened,
      roles? readings "additionalProperties" with
  | some (.bool true), _ => some (.ok .anything)
  | some (.map []), _ => some (.ok .anything)
  | some (.map _), some r | some .beyond, some r => some ((r.schema ()).map .each)
  | _, _ => none

def mapParts (entries : List (Scalar × Value)) (readings : List (Scalar × SchemaRoles))
    (values : Except DocumentFault (Additional Schema)) : Except DocumentFault KindParts := do
  let properties ← propertiesOf readings
  let additional ← values
  return { kind := .map
           type := .text "object"
           properties
           required := (field? entries "required").getD (.list [])
           additional }

def objectParts (entries : List (Scalar × Value)) (readings : List (Scalar × SchemaRoles)) :
    Except DocumentFault KindParts := do
  let properties ← propertiesOf readings
  return { kind := .object
           type := .text "object"
           properties
           required := (field? entries "required").getD (.list [])
           additional := match field? entries "additionalProperties" with
             | some (.bool false) => .closed
             | _ => .unstated }

def compositionKeys : List String := ["allOf", "oneOf", "anyOf"]

/-- The parts of the schema that a mapping describes, by the first rule that fits. -/
def kindParts (entries : List (Scalar × Value)) (readings : List (Scalar × SchemaRoles)) :
    Except DocumentFault KindParts :=
  if let some reference := field? entries "$ref" then
    .ok { kind := .object, reference }
  else if compositionKeys.any fun key => (field? entries key).isSome then
    composedParts entries readings
  else
    let type := (field? entries "type").getD .null
    let isArray := match type with
      | .text t => t == "array"
      | _ => false
    if isArray || (field? entries "items").isSome then arrayParts readings
    else if let some values := mapValues? entries readings then mapParts entries readings values
    else match type with
      | .text t =>
        if primitiveTypes.contains t then .ok { kind := .primitive, type }
        else objectParts entries readings
      | _ => objectParts entries readings

/-- The schema that a mapping describes. The first part that cannot be read wins over the check of
the schema itself. -/
def schemaOfEntries (entries : List (Scalar × Value)) (readings : List (Scalar × SchemaRoles)) :
    Except DocumentFault Schema := do
  let common ← commonParts entries
  let own ← kindParts entries readings
  (assemble common own).orThrow .invalid

/-- The items of a list as schemas; the first fault wins. -/
def allSchemas : List SchemaRoles → Except DocumentFault (List Schema)
  | [] => .ok []
  | r :: rest => do
    let s ← r.schema ()
    let more ← allSchemas rest
    return s :: more

/-- The entries of a mapping as schemas by key; the first fault wins. -/
def allProperties : List (Scalar × SchemaRoles) → Except DocumentFault (List (Scalar × Schema))
  | [] => .ok []
  | (k, r) :: rest => do
    let s ← r.schema ()
    let more ← allProperties rest
    return (k, s) :: more

/-- The roles of a scalar. A text counts as a sequence of characters, each a schema without
content; a scalar that is not given counts as no properties. -/
def scalarRoles (s : Scalar) : SchemaRoles where
  schema _ := .ok {}
  members _ := match s with
    | .text t => .ok (List.replicate t.length {})
    | _ => .error .notIterable
  properties _ := if (Value.scalar s).isGiven then .error .noMembers else .ok []

mutual
/-- Read a value in each of its roles. A mapping counts as the sequence of its keys, each a schema
without content. A schema that is reached beyond what is kept of a tree without end is a part of
itself. -/
def SchemaRoles.ofValue : Value → SchemaRoles
  | .scalar s => scalarRoles s
  | .list items =>
    { schema := fun _ => .ok {}
      members := fun _ => allSchemas (rolesOfItems items)
      properties := fun _ => if items.isEmpty then .ok [] else .error .noMembers }
  | .map entries =>
    { schema := fun _ => schemaOfEntries entries (rolesOfEntries entries)
      members := fun _ => .ok (List.replicate entries.length {})
      properties := fun _ => allProperties (rolesOfEntries entries) }
  | .knot _ v => .ofValue v
  | .loop v => .ofValue v
  | .beyond =>
    { schema := fun _ => .error .endless
      members := fun _ => .error .endless
      properties := fun _ => .error .endless }
def rolesOfItems : List Value → List SchemaRoles
  | [] => []
  | v :: rest => .ofValue v :: rolesOfItems rest
def rolesOfEntries : List (Scalar × Value) → List (Scalar × SchemaRoles)
  | [] => []
  | (k, v) :: rest => (k, .ofValue v) :: rolesOfEntries rest
end

/-- Read a value as a schema. -/
def Schema.ofValue (v : Value) : Except DocumentFault Schema := (SchemaRoles.ofValue v).schema ()

end ClientTypes
