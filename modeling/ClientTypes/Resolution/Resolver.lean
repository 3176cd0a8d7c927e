import ClientTypes.Resolution.Flattening
import ClientTypes.Resolution.Enrichment
import ClientTypes.Resolution.Run
import ClientTypes.Naming.Spelling
import ClientTypes.Value.Display

/-!
Resolving schemas into models and properties.

A property gets a type expression. Objects and unions that are described in place become models of
their own, named after the schema they belong to and the property; that is how resolving a property
leads to resolving a model and from there to more properties. Every function here is one step: it is
given how properties inside are resolved. The steps are tied together at the end, by a fuel that is
computed from the sizes of all schemas.

Bad references do not fail. A reference to an unknown schema becomes the type of any value, with the
reason as a mark; a merge without any resolved member becomes an empty model with a mark.
-/

namespace ClientTypes.Resolution

open Naming

structure Request where
  name : String
  schema : Schema
  /-- The schema that the property belongs to; empty when there is none. -/
  owner : String := ""
  required : Bool := false

abbrev Resolve := Request → Run Property

/-- The name of an inline schema: the name of the property, after that of its owner. -/
def inlineName (owner name : String) : String :=
  if owner = "" then name else owner ++ "_" ++ name

/-- The members of an enumeration. Their names come from their texts. -/
def enumMembers : List Value → Run (List EnumMember)
  | [] => pure []
  | v :: rest => do
    let first : EnumMember := ⟨memberName (← textOf v), v⟩
    let more ← enumMembers rest
    return first :: more

def enumValues (values : List Value) : Run AllowableValues := do
  return { kind := .enum, enumMembers := ← enumMembers values }

/-- A property before its type is known. -/
def blankProperty (r : Request) : Property where
  baseName := r.name
  name := fieldName r.name
  datatype := TargetType.fallback
  dataFormat := r.schema.format
  description := r.schema.description
  required := r.required

/-! ### References -/

/-- The type of a reference: that of its schema, whatever path follows. An unknown schema leaves the
type of any value and a mark. -/
def referenceProperty (setup : Setup) (p : Property) (reference : String) : Run Property := do
  let target := (Pointer.ofReference reference).schema
  if setup.schemas.has target then return { p with datatype := typeName target }
  report .resolver .debug
    (p.baseName ++ ": unknown reference " ++ reference ++ ", using " ++ TargetType.fallback)
  return { p with
    datatype := TargetType.fallback
    marks := { p.marks with unresolved := some ("unknown schema " ++ target) } }

/-! ### Containers -/

/-- An array. The element carries the names of the array, and a union of elements is shown at the
array as well. -/
def arrayProperty (resolve : Resolve) (p : Property) (s : Schema) (owner : String) :
    Run Property := do
  let itemName := if owner = "" then p.baseName ++ "_inner" else p.baseName
  let item ← resolve { name := itemName, schema := s.items.getD {}, owner }
  let item := { item with baseName := p.baseName, name := p.name }
  let p := { p with
    items := some item, container := some .array, datatype := TargetType.listOf item.datatype }
  match item.values.filter (·.isUnion) with
  | none => return p
  | some values => return { p with
      values := some values
      marks := { p.marks with isEnum := true, isUntagged := item.marks.isUntagged } }

/-- A map. Entries that follow a schema are the element of the container. -/
def mapProperty (resolve : Resolve) (p : Property) (s : Schema) (owner : String) :
    Run Property := do
  match s.additional with
  | .each inner =>
    let innerName := if owner = "" then p.baseName ++ "_value" else p.baseName
    let value ← resolve { name := innerName, schema := inner, owner }
    let value := { value with baseName := p.baseName, name := p.name }
    return { p with
      items := some value, container := some .map, datatype := TargetType.mapOf value.datatype }
  | _ => return { p with container := some .map, datatype := TargetType.openMap }

/-- An entry of a map with properties: its type is spelled as the name of a model, unless it is built
in or is a point in time. -/
def spelledEntry (p : Property) : Property :=
  if p.dataFormat ≠ some "date-time" ∧ ¬ TargetType.isBuiltIn p.datatype then
    { p with datatype := typeName p.datatype }
  else p

def mapEntries (resolve : Resolve) (owner : String) (required : List String) :
    List (String × Schema) → Run (List Property)
  | [] => pure []
  | (key, s) :: rest => do
    let entry ← resolve { name := key, schema := s, owner, required := required.contains key }
    let more ← mapEntries resolve owner required rest
    return spelledEntry entry :: more

/-- A map with properties: any value is allowed, and the properties are documented entries. -/
def documentedMap (resolve : Resolve) (p : Property) (s : Schema) (owner : String) :
    Run Property := do
  let entries ← mapEntries resolve (inlineName owner p.baseName) s.required s.properties
  return { p with
    datatype := TargetType.openMap, container := some .map, marks := { p.marks with entries } }

/-! ### Unions -/

def referenceVariant (setup : Setup) (reference : String) : Run Variant := do
  let target := (Pointer.ofReference reference).schema
  if setup.schemas.has target then
    return { name := upperSnake target, datatype := typeName target, isModel := true }
  report .resolver .debug ("unresolved union member " ++ reference)
  return {
    name := upperSnake target
    datatype := TargetType.fallback
    unresolved := some ("unknown schema " ++ target) }

/-- The arm of a member, which stands after `place` arms. A member that is described in place is
resolved under the name of the union and its own place. -/
def memberVariant (setup : Setup) (resolve : Resolve) (name owner : String) (place : Nat)
    (member : Schema) : Run Variant := do
  match member.target? with
  | some reference => referenceVariant setup reference
  | none =>
    let sub ← resolve { name := name ++ "_sub_" ++ toString place, schema := member, owner }
    return {
      name := upperSnake sub.datatype
      datatype := sub.datatype
      container := sub.container
      isModel := !TargetType.isBuiltIn sub.datatype
      unresolved := sub.marks.unresolved }

/-- The arms of members after the arms that were found before. An arm whose type is there already is
dropped. -/
def variantsFrom (setup : Setup) (resolve : Resolve) (name owner : String) :
    (found : List Variant) → List Schema → Run (List Variant)
  | found, [] => pure found
  | found, member :: rest => do
    let variant ← memberVariant setup resolve name owner found.length member
    if found.any (·.datatype == variant.datatype) then
      report .resolver .debug (name ++ ": dropping duplicate variant " ++ variant.datatype)
      variantsFrom setup resolve name owner found rest
    else variantsFrom setup resolve name owner (found ++ [variant]) rest

/-- A union of references only is untagged. -/
def unionKind (members : List Schema) : ValuesKind :=
  if members.all (·.target?.isSome) then .untagged else .complex

def unionValues (setup : Setup) (resolve : Resolve) (name owner : String)
    (members : List Schema) : Run AllowableValues := do
  let variants ← variantsFrom setup resolve name owner [] members
  return { kind := unionKind members, variants }

/-- The name of the model of a union: the types of its arms one after the other when it is untagged,
and otherwise the name of its place. -/
def unionName (s : Schema) (values : AllowableValues) (owner name : String) : String :=
  (if s.oneOf.isEmpty then "AnyOf" else "OneOf") ++
    if values.kind = .untagged then String.join (values.variants.map (·.datatype))
    else typeName (inlineName owner name)

def unionModel (name : String) (description : Option String) (values : AllowableValues) :
    Model where
  name := name
  classname := name
  description := description
  isEnum := true
  values := some values
  marks := { isUntagged := values.kind == .untagged }

/-- A union: its arms are shown at the property and at a model of its own. -/
def unionProperty (setup : Setup) (resolve : Resolve) (p : Property) (s : Schema)
    (owner : String) : Run Property := do
  let values ← unionValues setup resolve p.baseName owner s.unionMembers
  let number ← modifyGet (·.nextList)
  let values := { values with sharedList := some number }
  let name := unionName s values owner p.baseName
  let _ ← modifyGet (·.addSynthetic (unionModel name s.description values))
  return { p with
    datatype := name
    values := some values
    marks := { p.marks with isEnum := true, isUntagged := values.kind == .untagged } }

/-! ### Models -/

def resolveVars (resolve : Resolve) (owner : String) (required : List String) :
    List (String × Schema) → Run (List Property)
  | [] => pure []
  | (name, s) :: rest => do
    let first ← resolve { name, schema := s, owner, required := required.contains name }
    let more ← resolveVars resolve owner required rest
    return first :: more

/-- The type of the elements of the first list among properties. -/
def firstListType? (vars : List Property) : Option String :=
  vars.findSome? fun p =>
    if p.container == some .array then p.items.map (·.datatype) else none

/-- A model before its content is known. -/
def blankModel (name : String) (s : Schema) : Model where
  name := name
  classname := typeName name
  title := s.title
  description := s.description

def mergedModel (setup : Setup) (resolve : Resolve) (m : Model) (s : Schema) : Run Model := do
  reportAll .resolver .debug (flattenNotes setup.schemas m.name s)
  match flatten setup.schemas m.name s with
  | .unresolved reason =>
    report .resolver .info (m.name ++ ": allOf could not be resolved (" ++ reason ++ ")")
    return { m with marks := { m.marks with resolutionFailed := true, unresolvedBases := [reason] } }
  | .merged f =>
    let vars ← resolveVars resolve m.name f.required f.properties
    let isPage := f.bases.any setup.config.paginationBases.contains
    return { m with
      vars
      dataType := some TargetType.openObject
      marks := { m.marks with
        composedBases := f.bases
        unresolvedBases := f.unresolved
        paginationInner := if isPage then firstListType? vars else none } }

/-- A composition: a merge, a union, or an object when it has no members. -/
def composedModel (setup : Setup) (resolve : Resolve) (m : Model) (s : Schema) : Run Model := do
  if !s.allOf.isEmpty then mergedModel setup resolve m s
  else if s.unionMembers.isEmpty then
    let vars ← resolveVars resolve m.name s.required s.properties
    return { m with vars, dataType := some TargetType.openObject }
  else
    let values ← unionValues setup resolve m.name "" s.unionMembers
    return { m with
      isEnum := true
      values := some values
      marks := { m.marks with isUntagged := values.kind == .untagged } }

def modelStep (setup : Setup) (resolve : Resolve) (name : String) (s : Schema) : Run Model := do
  let m := blankModel name s
  if setup.config.denylist.contains name then
    report .resolver .info (name ++ " is denylisted, emitting a placeholder model")
    return { m with marks := { m.marks with placeholder := true } }
  else if s.target?.isSome then
    let followed ← resolve { name, schema := s }
    return { m with dataType := some followed.datatype }
  else match s.kind with
    | .composed => composedModel setup resolve m s
    | .map =>
      if s.isMapWithProperties then
        let vars ← mapEntries resolve name s.required s.properties
        return { m with
          vars
          container := some .map
          containerInner := some TargetType.fallback
          dataType := some TargetType.openMap
          marks := { m.marks with mapLike := true } }
      else wrapper m
    | .array => wrapper m
    | .primitive =>
      let single ← resolve { name, schema := s }
      let m := { m with dataType := some single.datatype }
      if s.enum.isEmpty then return m
      else return { m with isEnum := true, values := some (← enumValues s.enum) }
    | .object =>
      let vars ← resolveVars resolve name s.required s.properties
      return { m with vars, dataType := some TargetType.openObject }
where
  /-- A model that stands for a container. -/
  wrapper (m : Model) : Run Model := do
    let whole ← resolve { name, schema := s }
    return { m with
      container := whole.container
      containerInner := some ((whole.items.map (·.datatype)).getD TargetType.fallback)
      dataType := some whole.datatype }

/-- The classname of the model of an inline object, which is resolved unless there is a model of its
name. -/
def hoist (setup : Setup) (resolve : Resolve) (name : String) (s : Schema) : Run String := do
  match (← get).synthetic? name with
  | some existing => return existing.classname
  | none =>
    let m ← modelStep setup resolve name s
    let kept ← modifyGet (·.addSynthetic m)
    return kept.classname

/-- A composition as the type of a property. A merge of a single reference without properties of its
own only adds a description to it. -/
def composedProperty (setup : Setup) (resolve : Resolve) (p : Property) (s : Schema)
    (owner : String) : Run Property := do
  match s.allOf with
  | [] =>
    if s.unionMembers.isEmpty then return { p with datatype := TargetType.openObject }
    else unionProperty setup resolve p s owner
  | first :: rest =>
    match first.target?, rest, s.properties with
    | some reference, [], [] => referenceProperty setup p reference
    | _, _, _ => return { p with datatype := ← hoist setup resolve (inlineName owner p.baseName) s }

def typedProperty (setup : Setup) (resolve : Resolve) (r : Request) : Run Property := do
  let p := blankProperty r
  let s := r.schema
  match s.target? with
  | some reference => referenceProperty setup p reference
  | none =>
    match s.kind with
    | .array => arrayProperty resolve p s r.owner
    | .map =>
      if s.isMapWithProperties then documentedMap resolve p s r.owner
      else mapProperty resolve p s r.owner
    | .composed => composedProperty setup resolve p s r.owner
    | .primitive =>
      let p := { p with datatype := TargetType.ofPrimitive s.type s.format }
      if s.enum.isEmpty then return p
      else return { p with values := some (← enumValues s.enum) }
    | .object =>
      if s.properties.isEmpty then return { p with datatype := TargetType.openObject }
      else return { p with datatype := ← hoist setup resolve (inlineName r.owner p.baseName) s }

def propertyStep (setup : Setup) (resolve : Resolve) (r : Request) : Run Property := do
  let p ← typedProperty setup resolve r
  reportAll .enrichment .debug (enrichNotes setup.config p)
  return enrich setup.config p

/-! ### Tying the steps together -/

/-- Resolve a property at most `fuel` properties deep. -/
def propertyWithin (setup : Setup) : (fuel : Nat) → Resolve
  | 0, _ => halt .endless
  | fuel + 1, r => propertyStep setup (propertyWithin setup fuel) r

def Setup.totalSize (setup : Setup) : Nat := Schema.sizeOfProperties setup.schemas

/-- Inline objects may be resolved inside one another at least this deep. An object that holds itself
under a longer name each time ends where it meets a name that is not resolved any further. -/
def leastDepth : Nat := 1000

/-- How deep resolving a schema may go: as far as every schema of the table, and the schema itself,
can stand inside one another once for every name, and a fixed depth more. -/
def Setup.budget (setup : Setup) (s : Schema) : Nat :=
  (setup.totalSize + s.size + 1) * (setup.schemas.length + 2) + leastDepth

def resolveProperty (setup : Setup) (r : Request) : Run Property :=
  propertyWithin setup (setup.budget r.schema) r

def resolveModel (setup : Setup) (name : String) (s : Schema) : Run Model :=
  modelStep setup (propertyWithin setup (setup.budget s)) name s

def resolveVariants (setup : Setup) (name : String) (members : List Schema) (owner : String) :
    Run AllowableValues :=
  unionValues setup (propertyWithin setup (setup.budget { allOf := members })) name owner members

end ClientTypes.Resolution
