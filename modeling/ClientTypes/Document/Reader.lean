import ClientTypes.Document.Reference
import ClientTypes.Document.Hoisting
import ClientTypes.Value.Display

/-!
Reading a description of either dialect into a document.

The two dialects differ in where things stand: schemas under `components` or under `definitions`;
a body of its own or a parameter sent in the body; a schema under the content of a response or
directly under it; a parameter with a schema or with the parts of one. Each place is tried in the
order of the newer dialect first. A description is refused at its first fault, in the order in which
its parts are read: schemas, operations by path and method, then title and version.
-/

namespace ClientTypes.Document

open Text

/-- The state of reading is the table of schemas; reading may fail. -/
abbrev Reading (α : Type) := StateT Hoisting (Except DocumentFault) α

/-- The methods that make an entry of a path an operation. -/
def httpMethods : List String := ["get", "post", "put", "delete", "patch", "head", "options"]

/-- A part of a mapping, or a default when it is not there. -/
def member (v : Value) (name : String) (default : Value) : Except DocumentFault Value :=
  match v.opened with
  | .map entries => .ok ((field? entries name).getD default)
  | _ => .error .noMembers

/-- The entries of a value that is a mapping, or that is not given. -/
def entriesOrNone (v : Value) : Except DocumentFault (List (Scalar × Value)) :=
  if v.isGiven then
    match v.opened with
    | .map entries => .ok entries
    | _ => .error .noMembers
  else .ok []

def isText (s : String) : Value → Bool
  | .text t => t == s
  | _ => false

/-- A sequence holds a text: a mapping among its keys, a list among its items, a text anywhere
inside. -/
def holdsText (v : Value) (s : String) : Except DocumentFault Bool :=
  match v.opened with
  | .map entries => .ok (field? entries s).isSome
  | .list items => .ok (items.any (isText s))
  | .text t => .ok (occursIn s.toList t.toList)
  | _ => .error .notIterable

/-- The value under a key that was found. Only a mapping can be asked for it. -/
def valueAt (v : Value) (name : String) : Except DocumentFault Value :=
  match v.opened with
  | .map entries => .ok ((field? entries name).getD .null)
  | _ => .error .notIterable

/-- Two sequences one after the other, item by item. A text is a sequence of characters. -/
def joined (first second : Value) : Except DocumentFault (List Value) :=
  match first.opened, second.opened with
  | .list a, .list b => .ok (a ++ b)
  | .text a, .text b => .ok ((a.toList ++ b.toList).map fun c => .text (String.ofList [c]))
  | _, _ => .error .notIterable

/-- The default content type. -/
def jsonContent : String := "application/json"

/-- The schema of a content, and the content type it stands under: the JSON one, the form one, or
the first of all. -/
def pickContent (content : Value) : Except DocumentFault (Value × Scalar) := do
  if ← holdsText content jsonContent then
    return (← member (← valueAt content jsonContent) "schema" .null, .text jsonContent)
  if ← holdsText content "multipart/form-data" then
    return (← member (← valueAt content "multipart/form-data") "schema" .null,
      .text "multipart/form-data")
  match content.opened with
  | .map [] => return (.null, .text jsonContent)
  | .map ((contentType, data) :: _) => return (← member data "schema" .null, contentType)
  | _ => .error .noMembers

/-- The parts of a schema that may stand on the parameter itself. -/
def inlineSchemaKeys : List String := ["type", "format", "items", "enum"]

/-- The schema of a parameter: its own, or the parts of one that stand on it. A parameter without
either is a text. -/
def parameterSchema (entries : List (Scalar × Value)) : Value :=
  let own := (field? entries "schema").getD .null
  let raw := match own with
    | .null => .map (entries.filter fun e => inlineSchemaKeys.any fun key => e.1 == .text key)
    | v => v
  if raw.isGiven then raw else .record [("type", .text "string")]

/-- Read a parameter that is not sent in the body, with the given entries. -/
def readParameter (parameter : Value) (entries : List (Scalar × Value)) :
    Except DocumentFault ParameterDef := do
  if (field? entries "name").isNone then
    .error (.namelessParameter (← neededText parameter.display?))
  let schema ← Schema.ofValue (parameterSchema entries)
  let checked : Checked ParameterDef :=
    (fun name location required description => { name, location, required, description, schema })
    <$> Checked.needed entries "name" .text
    <*> (Checked.text ((field? entries "in").getD (.text "query"))).inside (.field "location")
    <*> Checked.fieldOr entries "required" false .flag
    <*> Checked.fieldOr entries "description" "" .text
  checked.orThrow .invalid

def isBodyParameter (entries : List (Scalar × Value)) : Bool :=
  (field? entries "in").any (isText "body")

/-- Read the parameters that are not sent in the body, in order. -/
def readParameters : List Value → Except DocumentFault (List ParameterDef)
  | [] => .ok []
  | parameter :: rest => match parameter.opened with
    | .map entries => do
      if isBodyParameter entries then readParameters rest
      else
        let first ← readParameter parameter entries
        let more ← readParameters rest
        return first :: more
    | _ => .error .noMembers

/-- The first parameter that is sent in the body. -/
def bodyParameter? : List Value → Option (List (Scalar × Value))
  | [] => none
  | parameter :: rest => match parameter.opened with
    | .map entries => if isBodyParameter entries then some entries else bodyParameter? rest
    | _ => bodyParameter? rest

/-- Where the body of a request is described: its entries, its schema and its content type. -/
structure BodySource where
  entries : List (Scalar × Value)
  schema : Value
  contentType : Scalar

/-- Find the body of a request: a body of its own with a schema in its content, or else the first
parameter that is sent in the body. A body without a schema is none. -/
def bodySource? (body : Value) (parameters : List Value) :
    Except DocumentFault (Option BodySource) :=
  if body.isGiven then do
    let content ← member body "content" (.map [])
    let (schema, contentType) ← pickContent content
    match body.opened, schema with
    | _, .null => return none
    | .map entries, schema => return some { entries, schema, contentType }
    | _, _ => .error .noMembers
  else
    match bodyParameter? parameters with
    | none => .ok none
    | some entries =>
      match (field? entries "schema").getD .null with
      | .null => .ok none
      | schema => .ok (some { entries, schema, contentType := .text jsonContent })

/-- Read the body of a request and give its schema a place. -/
def readBody (source : BodySource) : Reading BodyDef := do
  let extensions ← extensionsOf source.entries
  let schema ← Schema.ofValue source.schema
  let schemaName ← modifyGet (·.placeBody schema)
  let checked : Checked BodyDef :=
    (fun description required contentType =>
      { schema, schemaName, description, required, contentType, extensions })
    <$> Checked.fieldOr source.entries "description" "" .text
    <*> Checked.fieldOr source.entries "required" false .flag
    <*> (Checked.text (.scalar source.contentType)).inside (.field "content_type")
  (checked.orThrow .invalid : Except DocumentFault BodyDef)

def readOptionalBody : Option BodySource → Reading (Option BodyDef)
  | none => pure none
  | some source => some <$> readBody source

/-- Give the schema of a response a place, when there is one. -/
def placeResponseSchema (code : String) : Option Schema → Reading (Option String)
  | none => pure none
  | some s => modifyGet (·.placeResponse code s)

/-- Read one response. -/
def readResponse (doc : Value) (primary : Option String) (code : String) (raw : Value) :
    Reading ResponseDef := do
  let followed ← follow doc raw
  let response := if followed.isGiven then followed else .map []
  let rawSchema ← (do
    if ← holdsText response "content" then
      return (← pickContent (← valueAt response "content")).1
    else member response "schema" .null : Except DocumentFault Value)
  match response.opened with
  | .map entries =>
    let extensions ← extensionsOf entries
    let schema ← (match rawSchema with
      | .null => .ok none
      | v => (Schema.ofValue v).map some : Except DocumentFault (Option Schema))
    let schemaName ← placeResponseSchema code schema
    let description := Checked.fieldOr entries "description" "" .text
    let description ← (description.orThrow .invalid : Except DocumentFault String)
    return { code, description, schema, schemaName, isDefault := primary == some code, extensions }
  | _ => throw .noMembers

/-- The code of the response that callers expect: the first success code in the order of texts, or
else the default one when it is there. -/
def primaryCode? (codes : List String) : Option String :=
  match codes.filter (startsWith "2") with
  | [] => if codes.contains "default" then some "default" else none
  | first :: rest => some (rest.foldl (fun least code => if code < least then code else least) first)

def readResponseEntries (doc : Value) (primary : Option String) :
    List (String × Value) → Reading (List ResponseDef)
  | [] => pure []
  | (code, raw) :: rest => do
    let first ← readResponse doc primary code raw
    let more ← readResponseEntries doc primary rest
    return first :: more

/-- Read the responses of an operation. Every code needs a text before any response is read. -/
def readResponses (doc responses : Value) : Reading (List ResponseDef) :=
  match responses.opened with
  | .map entries => do
    let codes ← (entries.mapM fun e => neededText e.1.display? : Except DocumentFault (List String))
    readResponseEntries doc (primaryCode? codes) (codes.zip (entries.map (·.2)))
  | .list items => do
    let _ ← (items.mapM fun v => neededText v.display? : Except DocumentFault (List String))
    throw .noMembers
  | .text _ => throw .noMembers
  | _ => throw .notIterable

/-- The name of an operation that gives none: the method and the path with underscores. -/
def defaultOperationId (method : String) (path : Scalar) : Except DocumentFault Value :=
  match path with
  | .text p => .ok (.text (method ++ replace "/" "_" p))
  | _ => .error .noMembers

/-- Read an operation under a path and a method in lower case. Parameters of the path come before
those of the operation. -/
def readOperation (doc : Value) (path : Scalar) (method : String) (operation shared : Value) :
    Reading OperationDef := do
  let own ← member operation "parameters" (.list [])
  let rawParameters ← joined shared own
  let rawParameters ← rawParameters.mapM fun p => (follow doc p : Except DocumentFault Value)
  let parameters ← readParameters rawParameters
  let rawBody ← follow doc (← member operation "requestBody" .null)
  let body ← readOptionalBody (← bodySource? rawBody rawParameters)
  let givenId ← member operation "operationId" .null
  let operationId ← (if givenId.isGiven then .ok givenId else defaultOperationId method path :
    Except DocumentFault Value)
  let summary ← member operation "summary" (.text "")
  let notes ← member operation "description" .null
  let tags ← member operation "tags" (.list [])
  let responses ← readResponses doc (← member operation "responses" (.map []))
  let checked : Checked OperationDef :=
    (fun operationId path summary notes tags =>
      { operationId, method := String.ofList (method.toList.map Char.toUpper), path, summary, notes,
        tags, parameters, body, responses })
    <$> (Checked.text operationId).inside (.field "operation_id")
    <*> (Checked.text (.scalar path)).inside (.field "path")
    <*> (Checked.text summary).inside (.field "summary")
    <*> (Checked.optional .text notes).inside (.field "notes")
    <*> (Checked.listOf .text tags).inside (.field "tags")
  (checked.orThrow .invalid : Except DocumentFault OperationDef)

def readMethods (doc : Value) (path : Scalar) (shared : Value) :
    List (Scalar × Value) → Reading (List OperationDef)
  | [] => pure []
  | (.text key, operation) :: rest => do
    let method := String.ofList (key.toList.map Char.toLower)
    if httpMethods.contains method then
      let first ← readOperation doc path method operation shared
      let more ← readMethods doc path shared rest
      return first :: more
    else readMethods doc path shared rest
  | _ :: _ => throw .noMembers

/-- Read the operations of every path. -/
def readPaths (doc : Value) : List (Scalar × Value) → Reading (List OperationDef)
  | [] => pure []
  | (path, methods) :: rest => do
    let shared ← member methods "parameters" (.list [])
    let first ← readMethods doc path shared (← entriesOrNone methods)
    let more ← readPaths doc rest
    return first ++ more

/-- The entries under which a document declares schemas: those under its components, or else its
definitions. -/
def declaredEntries (doc : Value) : Except DocumentFault (List (Scalar × Value)) := do
  let components ← member doc "components" (.map [])
  let newer ← member components "schemas" .null
  let older ← member doc "definitions" .null
  entriesOrNone (if newer.isGiven then newer else older)

def declaredSchemas (doc : Value) : Except DocumentFault (List (Scalar × Schema)) := do
  allProperties (rolesOfEntries (← declaredEntries doc))

def ofValue (doc : Value) : Except DocumentFault ApiDocument := do
  let schemas ← declaredSchemas doc
  let paths ← entriesOrNone (← member doc "paths" .null)
  let (operations, hoisting) ← (readPaths doc paths).run { schemas }
  let info ← member doc "info" (.map [])
  let title ← member info "title" (.text "")
  let version ← neededText (← member info "version" (.text "")).display?
  let checked : Checked ApiDocument :=
    (fun title schemas => { title, version, schemas, operations })
    <$> (Checked.text title).inside (.field "title")
    <*> (checkedProperties hoisting.schemas).inside (.field "schemas")
  checked.orThrow .invalid

end ClientTypes.Document
