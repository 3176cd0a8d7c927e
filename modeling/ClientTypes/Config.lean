import ClientTypes.Table

/-!
What can be set for a run of the compiler.
-/

namespace ClientTypes

/-- A change of the type of a property whose declared type is known to be wrong. -/
structure FieldCorrection where
  /-- The type that is changed. -/
  datatype : String
  /-- What it is changed to. -/
  replacement : String
  /-- The property that is changed; without one, every property of the type is. -/
  baseName : Option String := none
deriving DecidableEq, Repr

/-- The correction applies to a property of this name and type. -/
def FieldCorrection.fits (c : FieldCorrection) (baseName datatype : String) : Bool :=
  datatype == c.datatype && (c.baseName.isNone || c.baseName == some baseName)

structure DiscriminatorDefault where
  field : String
  /-- `snake_name` asks for the snake case of the name; any other text for the name itself. -/
  value : String
deriving DecidableEq, Repr

structure Config where
  /-- What the name of the file of models begins with. -/
  targetPrefix : Option String := none
  /-- Optional fields without a value are left out when they are written. -/
  skipsNone : Bool := true
  /-- Fills the components that the version of a description leaves out. -/
  packageVersion : String := "0.1.0"
  /-- Schemas that are not resolved. -/
  denylist : List String := []
  /-- Names of fields by the name that is sent. -/
  nameOverrides : Table String String := []
  fieldCorrections : List FieldCorrection := []
  /-- Types of responses by the type that is declared. -/
  responseTypes : Table String String := []
  /-- Schemas whose extensions are paginated responses. -/
  paginationBases : List String := []
  discriminators : List DiscriminatorDefault := []
  /-- Models, and fields written as `Model.field`, that keep their references and optional fields. -/
  referenceOverrides : List String := []
  /-- Types without a default value. -/
  noDefaultTypes : List String := []
  ignoredQueryParams : List String := []
  /-- The key under which a body or response names its operation. -/
  operationNameKey : String := "x-codegen-operation-name"
deriving DecidableEq, Repr

namespace Config

/-- The settings that hold when nothing else is set. -/
def shipped : Config where
  denylist := ["inline_response_200_11"]
  nameOverrides := [("ref", "git_ref")]
  fieldCorrections := [⟨"i64", "f32", some "score"⟩, ⟨"Override", "ModelOverride", none⟩]
  responseTypes := [("SelectedActions", "PutActionsSetAllowedActionsRepository")]
  paginationBases := ["Pagination"]
  discriminators := [⟨"label", "name"⟩, ⟨"_type", "snake_name"⟩]
  referenceOverrides := ["Reference", "Tag"]
  noDefaultTypes := ["DateTime<Utc>"]
  ignoredQueryParams := ["total"]

/-- The name of the file of models. An empty prefix counts as none. -/
def modelsFile (c : Config) : String :=
  match c.targetPrefix.getD "" with
  | "" => "models.rs"
  | p => p ++ "_models.rs"

def keepsReferences (c : Config) (model : String) : Bool := c.referenceOverrides.contains model

/-- A field keeps its reference: its model does, or the field itself is listed. -/
def keepsReferenceOf (c : Config) (model field : String) : Bool :=
  c.keepsReferences model || c.referenceOverrides.contains (model ++ "." ++ field)

end Config

end ClientTypes
