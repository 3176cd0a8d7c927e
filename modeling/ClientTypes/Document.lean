import ClientTypes.Schema

/-!
API descriptions after reading.

A document is a table of schemas and a list of operations. Bodies and responses carry the name of
their schema when it is in the table, either because they refer to it or because it was moved there
from its place inside the operation.
-/

namespace ClientTypes

/-- A parameter of an operation that is not its body. -/
structure ParameterDef where
  name : String
  /-- Where the parameter is sent: the query, the path, a header or a cookie. -/
  location : String
  required : Bool
  description : String
  schema : Schema
deriving Repr

structure BodyDef where
  schema : Schema
  /-- The name of the schema in the table of the document. -/
  schemaName : Option String
  description : String
  required : Bool
  contentType : String
  extensions : Table String Value
deriving Repr

/-- One of the responses of an operation. -/
structure ResponseDef where
  code : String
  description : String
  schema : Option Schema
  /-- The name of the schema in the table of the document. -/
  schemaName : Option String
  /-- The response that callers expect: the first success code, or the default one. -/
  isDefault : Bool
  extensions : Table String Value
deriving Repr

structure OperationDef where
  operationId : String
  method : String
  path : String
  summary : String
  notes : Option String
  tags : List String
  parameters : List ParameterDef
  body : Option BodyDef
  responses : List ResponseDef
deriving Repr

/-- A description that was read: its schemas by name, and its operations. -/
structure ApiDocument where
  title : String := ""
  version : String := ""
  schemas : Table String Schema := []
  operations : List OperationDef := []
deriving Repr

end ClientTypes
