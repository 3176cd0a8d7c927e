import ClientTypes.Document
import ClientTypes.Resolution.Resolver
import ClientTypes.Naming.Placeholder

/-!
Operations of a document as functions of a client.

Parameters are sorted by where they are sent, and every type that an operation mentions is resolved.
A body or response that was moved into the table of schemas may name the operation; the name is kept
as a friendly name for the numbered schema.
-/

namespace ClientTypes.Operations

open Naming Resolution

/-- The type of a schema that has a name is that name; any other schema is resolved under the
operation. The empty name counts as none. -/
def namedOrResolved (setup : Setup) (operationId place : String) (name : Option String)
    (s : Schema) : Run String :=
  match name.filter (· ≠ "") with
  | some name => pure (typeName name)
  | none =>
    (·.datatype) <$> resolveProperty setup { name := place, schema := s, owner := operationId }

/-- Register the friendly name that a body or response gives its schema, when the name of the schema
is a numbered one. -/
def registerHint (setup : Setup) (extensions : Table String Value) (name : Option String)
    (isNumberedName : String → Bool) (suffix : String) : Run Unit :=
  match extensions.get? setup.config.operationNameKey, name with
  | some hint, some name =>
    if hint.isGiven && isNumberedName name then do
      let friendly ← textOf hint
      modify (·.register name (friendly ++ suffix))
    else pure ()
  | _, _ => pure ()

/-- A parameter that is not the body. -/
def buildParameter (setup : Setup) (d : ParameterDef) : Run Parameter := do
  let p ← resolveProperty setup { name := d.name, schema := d.schema }
  return {
    baseName := d.name
    paramName := p.name
    location := d.location
    datatype := p.datatype
    required := d.required
    description := d.description
    container := p.container
    itemsDatatype := p.items.map (·.datatype)
    isString := p.datatype == TargetType.string
    isUuid := p.datatype == "Uuid" || p.dataFormat == some "uuid" }

/-- A body is marked as a map when it is an object without a declaration of its own. -/
def isMapBody (s : Schema) (datatype : String) : Bool :=
  (s.kind == .object || s.kind == .map) && Text.startsWith "HashMap" datatype

def buildBody (setup : Setup) (operationId : String) (d : BodyDef) : Run Parameter := do
  let datatype ← namedOrResolved setup operationId "body" d.schemaName d.schema
  let isMap := isMapBody d.schema datatype
  registerHint setup d.extensions d.schemaName isBodyName ""
  return {
    baseName := "body"
    paramName := "body"
    location := "body"
    datatype
    required := d.required
    description := d.description
    container := if isMap then some .map else none
    marks := { isMap } }

/-- The declared type of a response, before it is replaced by a type that is set for it. -/
def responseType (setup : Setup) (operationId : String) (d : ResponseDef) : Run (Option String) :=
  match d.schemaName.filter (· ≠ ""), d.schema with
  | some name, _ => pure (some (typeName name))
  | none, some s =>
    some <$> namedOrResolved setup operationId "response" none s
  | none, none => pure none

def buildResponse (setup : Setup) (operationId : String) (d : ResponseDef) : Run Response := do
  let declared ← responseType setup operationId d
  registerHint setup d.extensions d.schemaName isResponseName "Response"
  return {
    code := d.code
    message := d.description
    datatype := declared.map fun t => (setup.config.responseTypes.get? t).getD t
    isDefault := d.isDefault }

def argumentLocations : List String := ["query", "path", "header"]

/-- Parameters that become arguments, in order. Others are passed over. -/
def buildParameters (setup : Setup) (operationId : String) :
    List ParameterDef → Run (List Parameter)
  | [] => pure []
  | d :: rest => do
    if argumentLocations.contains d.location then
      let first ← buildParameter setup d
      let more ← buildParameters setup operationId rest
      return first :: more
    else
      report .operations .debug
        (operationId ++ ": skipping " ++ d.location ++ " parameter " ++ d.name)
      buildParameters setup operationId rest

def buildOptional {α β : Type} (build : α → Run β) : Option α → Run (Option β)
  | none => pure none
  | some a => some <$> build a

def buildResponses (setup : Setup) (operationId : String) :
    List ResponseDef → Run (List Response)
  | [] => pure []
  | d :: rest => do
    let first ← buildResponse setup operationId d
    let more ← buildResponses setup operationId rest
    return first :: more

def build (setup : Setup) (d : OperationDef) : Run Operation := do
  let operationId := operationName d.operationId
  let parameters ← buildParameters setup operationId d.parameters
  let bodyParam ← buildOptional (buildBody setup operationId) d.body
  let responses ← buildResponses setup operationId d.responses
  return {
    operationId
    nickname := underscore operationId
    method := d.method
    path := d.path
    summary := d.summary
    notes := d.notes
    tags := d.tags
    bodyParam
    queryParams := parameters.filter (·.location == "query")
    pathParams := parameters.filter (·.location == "path")
    headerParams := parameters.filter (·.location == "header")
    responses }

def buildEach (setup : Setup) : List OperationDef → Run (List Operation)
  | [] => pure []
  | d :: rest => do
    let first ← build setup d
    let more ← buildEach setup rest
    return first :: more

def buildAll (setup : Setup) (definitions : List OperationDef) : Run (List Operation) := do
  let operations ← buildEach setup definitions
  let hints := (← get).hints.size
  report .operations .info
    ("built " ++ toString operations.length ++ " operations, " ++ toString hints ++ " name hints")
  return operations

end ClientTypes.Operations
