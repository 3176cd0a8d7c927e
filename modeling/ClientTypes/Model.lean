import ClientTypes.Value

/-!
The compiled model of an interface.

Models and properties are what a renderer turns into type declarations; operations are what it turns
into functions. Each record carries marks: what the later stages of the compiler found out about it.
-/

namespace ClientTypes

inductive Container where
  | array
  | map
deriving DecidableEq, Repr

/-- A member of an enumeration: its name, and the value it stands for. -/
structure EnumMember where
  name : String
  value : Value
deriving Repr

/-- One arm of a union. -/
structure Variant where
  name : String
  datatype : String
  container : Option Container := none
  isModel : Bool := false
  /-- Why the type is not known. -/
  unresolved : Option String := none
deriving DecidableEq, Repr

inductive ValuesKind where
  /-- The members of an enumeration. -/
  | enum
  /-- The arms of a union of references. -/
  | untagged
  /-- The arms of a union in which some arms are described in place. -/
  | complex
deriving DecidableEq, Repr

/-- The values that a property or a model may take: members of an enumeration or arms of a union.

The arms of a union inside a schema belong to one list that is shown in several places: at the
property, at the arrays around it, and at the model of the union. All places of one list carry its
number; a list that is shown in one place only carries none. -/
structure AllowableValues where
  kind : ValuesKind
  enumMembers : List EnumMember := []
  variants : List Variant := []
  /-- The number of a list that is shown in several places. -/
  sharedList : Option Nat := none
deriving Repr

namespace AllowableValues

def count (v : AllowableValues) : Nat :=
  match v.kind with
  | .enum => v.enumMembers.length
  | .untagged | .complex => v.variants.length

def isUnion (v : AllowableValues) : Bool :=
  match v.kind with
  | .enum => false
  | .untagged | .complex => true

end AllowableValues

/-- Marks of a property. The entries are properties again, of type `π`. -/
structure PropertyMarks (π : Type) where
  /-- The field is not optional in the declaration. -/
  isRequired : Bool := false
  /-- The field has a value of its own in the default of its model. -/
  hasDefault : Bool := false
  defaultValue : Option String := none
  isEnum : Bool := false
  isUntagged : Bool := false
  /-- One of the members stands for the empty text. -/
  hasEmptyMember : Bool := false
  /-- The name of the field is the name that is sent. -/
  keepsName : Bool := false
  isString : Bool := false
  /-- The field is left out when it has no value. -/
  skipsNone : Bool := false
  /-- The documented entries of a map. -/
  entries : List π := []
  /-- Why the type is not known. -/
  unresolved : Option String := none
deriving Repr

/-- A property of a model, or the element of a container. -/
structure Property where
  /-- The name that is sent. -/
  baseName : String
  /-- The name of the field. -/
  name : String
  datatype : String
  dataFormat : Option String := none
  container : Option Container := none
  /-- The element of the container. -/
  items : Option Property := none
  values : Option AllowableValues := none
  description : Option String := none
  required : Bool := false
  marks : PropertyMarks Property := {}
deriving Repr

/-- A field of a model with a value of its own in the default of the model. -/
structure FieldDefault where
  key : String
  value : String
deriving DecidableEq, Repr

structure ModelMarks where
  /-- The declaration wraps a single type. -/
  hasVars : Bool := false
  isEnum : Bool := false
  isBool : Bool := false
  isInteger : Bool := false
  isString : Bool := false
  isDateTime : Bool := false
  isArray : Bool := false
  isUntagged : Bool := false
  /-- Some property is a text. -/
  hasString : Bool := false
  /-- The model is a map with documented entries. -/
  mapLike : Bool := false
  /-- Nothing is declared for the model. -/
  noop : Bool := false
  /-- The model describes the body of a request. -/
  bodyModel : Bool := false
  /-- The schema was not resolved on purpose. -/
  placeholder : Bool := false
  hasDefault : Bool := false
  defaults : List FieldDefault := []
  /-- The type of the elements of a paginated response. -/
  paginationInner : Option String := none
  /-- The only field of a response that wraps one model. -/
  singleKey : Option String := none
  /-- The type of that field. -/
  singleDatatype : Option String := none
  /-- No member of the composition could be resolved. -/
  resolutionFailed : Bool := false
  unresolvedBases : List String := []
  composedBases : List String := []
deriving DecidableEq, Repr

/-- A model: a declaration of the target language. -/
structure Model where
  /-- The name of the schema. -/
  name : String
  /-- The name of the declaration. -/
  classname : String
  title : Option String := none
  description : Option String := none
  vars : List Property := []
  isEnum : Bool := false
  values : Option AllowableValues := none
  /-- The type that the declaration stands for. -/
  dataType : Option String := none
  container : Option Container := none
  containerInner : Option String := none
  removed : Bool := false
  marks : ModelMarks := {}
deriving Repr

namespace Model

def requiredVars (m : Model) : List Property := m.vars.filter (·.required)

def isUnion (m : Model) : Bool := m.values.any (·.isUnion)

/-- The first property that is sent under a name. -/
def var? (m : Model) (baseName : String) : Option Property :=
  m.vars.find? (·.baseName == baseName)

/-- The first property that is a list whose elements are known. -/
def firstList? (m : Model) : Option Property :=
  m.vars.findSome? fun p => if p.container == some .array then p.items else none

end Model

structure ParameterMarks where
  /-- The parameter is a list of texts. -/
  isTextList : Bool := false
  /-- The parameter is left out of the function. -/
  ignored : Bool := false
  /-- The body is a map. -/
  isMap : Bool := false
deriving DecidableEq, Repr

structure Parameter where
  baseName : String
  paramName : String
  location : String
  datatype : String
  required : Bool := false
  description : String := ""
  container : Option Container := none
  itemsDatatype : Option String := none
  isString : Bool := false
  isUuid : Bool := false
  marks : ParameterMarks := {}
deriving DecidableEq, Repr

structure ResponseMarks where
  /-- The type of the elements of a list response. -/
  paginationInner : Option String := none
deriving DecidableEq, Repr

structure Response where
  code : String
  message : String := ""
  datatype : Option String := none
  isDefault : Bool := false
  marks : ResponseMarks := {}
deriving DecidableEq, Repr

structure OperationMarks where
  /-- The operation answers with a list. -/
  isList : Bool := false
  responsePlural : Option String := none
  responsePluralSnake : Option String := none
  responseSingle : Option String := none
  singleDatatype : Option String := none
  singleKey : Option String := none
  /-- The operation answers with nothing. -/
  emptyResponse : Bool := false
  /-- No parameter of the query has to be given. -/
  optionalQuery : Bool := false
  /-- Some parameter of the query is a text. -/
  textQuery : Bool := false
deriving DecidableEq, Repr

/-- An operation: a function of the client. -/
structure Operation where
  operationId : String
  nickname : String
  method : String
  path : String
  summary : String := ""
  notes : Option String := none
  tags : List String := []
  bodyParam : Option Parameter := none
  queryParams : List Parameter := []
  pathParams : List Parameter := []
  headerParams : List Parameter := []
  responses : List Response := []
  marks : OperationMarks := {}
deriving DecidableEq, Repr

def Operation.primaryResponse? (o : Operation) : Option Response :=
  o.responses.find? (·.isDefault)

/-- The operations that are rendered into one module. -/
structure TagGroup where
  baseName : String
  classname : String
  operations : List String := []
deriving DecidableEq, Repr

/-- Everything that a renderer needs for one description. -/
structure CompiledApi where
  title : String := ""
  version : String := ""
  modelsFile : String := "models.rs"
  models : List Model := []
  removedModels : List String := []
  operations : List Operation := []
  tags : List TagGroup := []
deriving Repr

namespace CompiledApi

/-- The first model of a classname. -/
def model? (api : CompiledApi) (classname : String) : Option Model :=
  api.models.find? (·.classname == classname)

/-- The first operation of a name. -/
def operation? (api : CompiledApi) (operationId : String) : Option Operation :=
  api.operations.find? (·.operationId == operationId)

end CompiledApi

end ClientTypes
