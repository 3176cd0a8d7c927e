import ClientTypes.Model
import ClientTypes.Config
import ClientTypes.TargetType
import ClientTypes.Report
import ClientTypes.Text.Piece

/-!
Replacing reference stubs by what they refer to.

A description may declare `TeamReference` beside `Team`. Fields use the model itself, unless the
configuration keeps the reference for the model that owns the field, or for the field.
-/

namespace ClientTypes.CrossReference

def stubBack : String := "Reference"

/-- The live model that a stub refers to. The type `Reference` alone is no stub. -/
def stubTarget? (live : List String) (datatype : String) : Option String :=
  (Text.dropBack? stubBack datatype).filter fun stem => stem ≠ "" && live.contains stem

/-- The type of a container around an element; without a container the type stays what it is. -/
def wrapped (container : Option Container) (inner current : String) : String :=
  match container with
  | some .array => TargetType.listOf inner
  | some .map => TargetType.mapOf inner
  | none => current

/-- Replace the type of a property by what it refers to. The properties inside stay. -/
def unstub (live : List String) (p : Property) : Property :=
  { p with datatype := (stubTarget? live p.datatype).getD p.datatype }

/-- Replace the type of a property and that of its element, and put the container together again. -/
def unstubProperty (live : List String) (p : Property) : Property :=
  let outer := unstub live p
  match p.items with
  | none => outer
  | some item =>
    let item := unstub live item
    { outer with
      items := some item
      datatype := wrapped p.container item.datatype outer.datatype }

def unstubContainer (config : Config) (live : List String) (m : Model) : Model :=
  if config.keepsReferences m.classname then m
  else match m.containerInner.bind (stubTarget? live) with
    | none => m
    | some inner => { m with
        containerInner := some inner
        dataType := match m.container with
          | none => m.dataType
          | some c => some (wrapped (some c) inner "") }

def unstubVars (config : Config) (live : List String) (m : Model) : Model :=
  { m with vars := m.vars.map fun p =>
      if config.keepsReferenceOf m.classname p.baseName then p else unstubProperty live p }

def unstubModel (config : Config) (live : List String) (m : Model) : Model :=
  if m.removed then m else unstubVars config live (unstubContainer config live m)

/-- The report of replacing one type. -/
def unstubNote (live : List String) (classname baseName datatype : String) : List Report :=
  match stubTarget? live datatype with
  | none => []
  | some target =>
    [⟨.registry, .debug, classname ++ "." ++ baseName ++ ": " ++ datatype ++ " -> " ++ target⟩]

/-- The reports of replacing the types of the properties of a model. -/
def unstubNotes (config : Config) (live : List String) (m : Model) : List Report :=
  if m.removed then []
  else m.vars.flatMap fun p =>
    if config.keepsReferenceOf m.classname p.baseName then []
    else unstubNote live m.classname p.baseName p.datatype ++
      (p.items.toList.flatMap fun item =>
        unstubNote live m.classname p.baseName item.datatype)

end ClientTypes.CrossReference
