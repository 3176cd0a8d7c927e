import ClientTypes.Operations
import ClientTypes.CrossReference
import ClientTypes.Linking
import ClientTypes.Naming.Version

/-!
Compiling a document.

Operations come first, because they name placeholders. Then every schema of the table is resolved and
registered, after that the models of inline schemas; the registry is matched, and operations are
linked.
-/

namespace ClientTypes.Compilation

open Resolution CrossReference

def resolveSchemas (setup : Setup) : List (String × Schema) → Run (List Model)
  | [] => pure []
  | (name, s) :: rest => do
    let first ← resolveModel setup name s
    let more ← resolveSchemas setup rest
    return first :: more

/-- The models of all schemas of a document, and those of inline schemas after them. -/
def registryOf (declared synthetic : List Model) : Registry :=
  ((({} : Registry).addAll declared).addAll synthetic)

structure Result where
  api : CompiledApi
  /-- Reports in order. -/
  reports : List Report

def resolveDocument (setup : Setup) (document : ApiDocument) :
    Run (List Operation × List Model) := do
  let operations ← Operations.buildAll setup document.operations
  let declared ← resolveSchemas setup setup.schemas
  return (operations, declared)

def compile (config : Config) (document : ApiDocument) : Except Standstill Result := do
  let setup : Setup := { config, schemas := document.schemas }
  let ((operations, declared), w) ← (resolveDocument setup document).run {}
  let registry := registryOf declared w.synthetic
  let matched := CrossReference.run config w.hints.freeze registry
  let (linked, final) := Linking.linkAll config matched.renames matched.registry operations
  return {
    api := {
      title := document.title
      version := Naming.fillVersion document.version config.packageVersion
      modelsFile := config.modelsFile
      models := final.live
      removedModels := final.removed.map (·.name)
      operations := linked
      tags := Linking.groupByTag linked }
    reports :=
      w.reports.reverse ++
      (({} : Registry).addAll declared).addNotes w.synthetic ++
      [⟨.pipeline, .info, "resolved " ++ toString document.schemas.length ++ " schemas into " ++
        toString registry.models.length ++ " models"⟩] ++
      matched.reports ++
      Linking.linkNotes matched.renames matched.registry operations }

end ClientTypes.Compilation
