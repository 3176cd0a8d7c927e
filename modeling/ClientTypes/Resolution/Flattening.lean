import ClientTypes.Schema
import ClientTypes.Naming.Reference
import ClientTypes.Text.Integer

/-!
Flattening a merge of schemas into one list of properties.

Members of `allOf` are taken in order, and the properties of the schema itself come last. A member is
a reference, another merge, or a schema with properties of its own. The first member that declares a
property keeps it. A reference is cut when its schema is unknown or is being flattened already; a
merge that finds no property at all, after at least one cut, is unresolved.

Every reference that is followed names a schema that was not visited before, so following ends after
as many references as there are schemas.
-/

namespace ClientTypes.Resolution

open Naming

/-- What was merged, in order of declaration. -/
structure Flattened where
  properties : Table String Schema := []
  required : List String := []
  /-- The schemas that members refer to. -/
  bases : List String := []
  /-- Why members were left out. -/
  unresolved : List String := []
deriving Repr

inductive Flattening where
  | merged (fields : Flattened)
  | unresolved (reason : String)
deriving Repr

/-- Add an item to a list that does not have it. -/
def addNew (items : List String) (item : String) : List String :=
  if items.contains item then items else items ++ [item]

/-- The fields that a schema declares itself. -/
def ownFields (s : Schema) : Flattened := { properties := s.properties, required := s.required }

namespace Flattened

/-- Merge further fields. A property that is there keeps its schema; reasons accumulate. -/
def absorb (into sub : Flattened) : Flattened where
  properties := sub.properties.foldl (fun acc (key, s) => acc.putNew key s) into.properties
  required := sub.required.foldl addNew into.required
  bases := sub.bases.foldl addNew into.bases
  unresolved := into.unresolved ++ sub.unresolved

/-- Merge the result of a member. A member that is unresolved leaves its reason only. -/
def add (into : Flattened) : Flattening → Flattened
  | .merged sub => into.absorb sub
  | .unresolved reason => { into with unresolved := into.unresolved ++ [reason] }

/-- The result of a merge: unresolved when there is no property and something was left out. -/
def conclude (f : Flattened) : Flattening :=
  if f.properties.isEmpty && !f.unresolved.isEmpty then
    .unresolved ("; ".intercalate f.unresolved)
  else .merged f

end Flattened

mutual
/-- Flatten a schema, given how references are followed. -/
def mergeAllOf (follow : String → Flattening) : Schema → Flattening
  | { allOf, properties, required, .. } =>
    ((mergeMembers follow {} allOf).absorb { properties, required }).conclude
/-- Merge members in order into what was merged before. -/
def mergeMembers (follow : String → Flattening) (into : Flattened) : List Schema → Flattened
  | [] => into
  | m :: rest =>
    let sub := match m.target? with
      | some reference => follow reference
      | none => if m.isMerge then mergeAllOf follow m else .merged (ownFields m)
    mergeMembers follow (into.add sub) rest
end

/-- The members of a composition under the key of a path. -/
def membersUnder? (s : Schema) : String → Option (List Schema)
  | "allOf" => some s.allOf
  | "oneOf" => some s.oneOf
  | "anyOf" => some s.anyOf
  | _ => none

/-- Walk along a path into a schema: `allOf/0`, `properties/name` and `items` in any sequence. The
place of a member is an integer, and a negative one counts from the end. -/
def walk : Schema → List String → Option Schema
  | s, [] => some s
  | s, "items" :: rest => s.items.bind (walk · rest)
  | s, "properties" :: key :: rest => (s.properties.lookup key).bind (walk · rest)
  | s, segment :: place :: rest => do
    let members ← membersUnder? s segment
    let place ← Text.readInteger place.toList
    let member ← Text.itemAt? members place
    walk member rest
  | _, [_] => none

/-- Where a reference leads: the name of its schema, and the part of that schema to merge. A path
that breaks, or that ends at a part with nothing to merge, leads to the whole schema. -/
def lead (schemas : Table String Schema) (visited : List String) (reference : String) :
    Except String (String × Schema) :=
  let pointer := Pointer.ofReference reference
  if visited.contains pointer.schema then .error ("cyclic reference " ++ reference)
  else match schemas.get? pointer.schema with
    | none => .error ("unknown schema " ++ pointer.schema)
    | some whole =>
      .ok (pointer.schema, ((walk whole pointer.path).filter (·.hasShape)).getD whole)

/-- Put the name of a followed schema in front of the bases. -/
def withBase (name : String) : Flattening → Flattening
  | .merged f => .merged { f with bases := name :: f.bases }
  | .unresolved reason => .unresolved reason

/-- Follow a reference with a set of schemas visited. The fuel is at least the number of schemas that
are not visited, plus one. -/
def followReference (schemas : Table String Schema) :
    (fuel : Nat) → (visited : List String) → (reference : String) → Flattening
  | 0, _, reference => .unresolved ("cyclic reference " ++ reference)
  | fuel + 1, visited, reference =>
    match lead schemas visited reference with
    | .error reason => .unresolved reason
    | .ok (name, part) =>
      let follow := followReference schemas fuel (name :: visited)
      withBase name <| match part.target? with
        | some further => follow further
        | none => if part.isMerge then mergeAllOf follow part else .merged (ownFields part)

/-- Flatten a schema under a name, with a set of schemas visited. -/
def flatten (schemas : Table String Schema) (name : String) (schema : Schema)
    (visited : List String := []) : Flattening :=
  mergeAllOf (followReference schemas (schemas.length + 1) (name :: visited)) schema

/-! ### What is reported on the way -/

/-- A report for every property that is there already. -/
def notesOfAbsorb (name : String) (into sub : Flattened) : List String :=
  (sub.properties.filter fun e => into.properties.has e.1).map fun e =>
    name ++ ": field " ++ e.1 ++ " already merged, keeping the first"

/-- A report for a member that is left out, or for its properties that are there already. -/
def notesOfAdd (name : String) (into : Flattened) : Flattening → List String
  | .merged sub => notesOfAbsorb name into sub
  | .unresolved reason => [name ++ ": skipping allOf member (" ++ reason ++ ")"]

mutual
def notesOfMerge (follow : String → Flattening) (notes : String → List String) (name : String) :
    Schema → List String
  | { allOf, properties, required, .. } =>
    notesOfMembers follow notes name {} allOf ++
      notesOfAbsorb name (mergeMembers follow {} allOf) { properties, required }
def notesOfMembers (follow : String → Flattening) (notes : String → List String) (name : String)
    (into : Flattened) : List Schema → List String
  | [] => []
  | m :: rest =>
    let inner := match m.target? with
      | some reference => notes reference
      | none => if m.isMerge then notesOfMerge follow notes name m else []
    let sub := match m.target? with
      | some reference => follow reference
      | none => if m.isMerge then mergeAllOf follow m else .merged (ownFields m)
    inner ++ notesOfAdd name into sub ++ notesOfMembers follow notes name (into.add sub) rest
end

def notesOfReference (schemas : Table String Schema) :
    (fuel : Nat) → (visited : List String) → (reference : String) → List String
  | 0, _, _ => []
  | fuel + 1, visited, reference =>
    match lead schemas visited reference with
    | .error _ => []
    | .ok (name, part) =>
      let follow := followReference schemas fuel (name :: visited)
      let notes := notesOfReference schemas fuel (name :: visited)
      match part.target? with
      | some further => notes further
      | none => if part.isMerge then notesOfMerge follow notes name part else []

def flattenNotes (schemas : Table String Schema) (name : String) (schema : Schema) : List String :=
  notesOfMerge (followReference schemas (schemas.length + 1) [name])
    (notesOfReference schemas (schemas.length + 1) [name]) name schema

end ClientTypes.Resolution
