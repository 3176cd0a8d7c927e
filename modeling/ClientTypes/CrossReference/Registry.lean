import ClientTypes.Model
import ClientTypes.Report

/-!
The models of one document.

Models are kept by the name of their schema, in order of registration, and the first model of a name
stays. A removed model is kept too, so that operations can still look up what it describes.
-/

namespace ClientTypes.CrossReference

/-- The models of a document, removed ones included. -/
structure Registry where
  models : List Model := []
  /-- The models were matched with one another. -/
  crossReferenced : Bool := false
deriving Repr

namespace Registry

def get? (r : Registry) (name : String) : Option Model := r.models.find? (·.name == name)

/-- Register a model, unless there is one of its name. -/
def add (r : Registry) (m : Model) : Registry :=
  if (r.get? m.name).isSome then r else { r with models := r.models ++ [m] }

def addAll (r : Registry) (ms : List Model) : Registry := ms.foldl add r

/-- The reports of registering models in order: those that find their name taken. -/
def addNotes (r : Registry) : List Model → List Report
  | [] => []
  | m :: rest =>
    let notes := if (r.get? m.name).isSome then
        [⟨.registry, .debug, "model " ++ m.name ++ " already registered, keeping the first"⟩]
      else []
    notes ++ addNotes (r.add m) rest

/-- The first model of a classname, removed or not. -/
def lookup? (r : Registry) (classname : String) : Option Model :=
  r.models.find? (·.classname == classname)

/-- The models that are not removed. -/
def live (r : Registry) : List Model := r.models.filter (!·.removed)

def removed (r : Registry) : List Model := r.models.filter (·.removed)

end Registry

end ClientTypes.CrossReference
