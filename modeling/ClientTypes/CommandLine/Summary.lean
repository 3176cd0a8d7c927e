import ClientTypes.Model
import ClientTypes.Document

/-!
What is printed about a description and its compiled model.
-/

namespace ClientTypes.CommandLine

/-- What kind of declaration a model is, in one word. -/
def modelWord (m : Model) : String :=
  if m.isEnum then "enum" else match m.container with
    | some .array => "array"
    | some .map => "map"
    | none => "struct"

def modelLine (m : Model) : String :=
  "  " ++ m.classname ++ " [" ++ modelWord m ++ "] " ++ toString m.vars.length ++ " fields"

def returnType (o : Operation) : String :=
  (((o.primaryResponse?.bind (·.datatype)).filter (· ≠ "")).getD "()")

def operationLine (o : Operation) : String :=
  "  " ++ o.method ++ " " ++ o.path ++ " " ++ o.operationId ++ " -> " ++ returnType o ++
    if o.marks.isList then " (list)" else ""

def summary (api : CompiledApi) : List String :=
  [api.title ++ " " ++ api.version ++ " -> " ++ api.modelsFile,
   "Models (" ++ toString api.models.length ++ "):"] ++ api.models.map modelLine ++
  (if api.removedModels.isEmpty then [] else ["Removed: " ++ ", ".intercalate api.removedModels]) ++
  ["Operations (" ++ toString api.operations.length ++ "):"] ++ api.operations.map operationLine

def parsedLine (document dialect : String) (d : ApiDocument) : String :=
  "Parsed " ++ document ++ " (" ++ dialect ++ "): " ++ toString d.schemas.length ++ " schemas, " ++
    toString d.operations.length ++ " operations."

def compiledLine (output : String) (api : CompiledApi) : String :=
  "Compiled " ++ toString api.models.length ++ " models (" ++ toString api.removedModels.length ++
    " removed) and " ++ toString api.operations.length ++ " operations to " ++ output

end ClientTypes.CommandLine
