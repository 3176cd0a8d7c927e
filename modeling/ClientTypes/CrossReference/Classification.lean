import ClientTypes.Model
import ClientTypes.TargetType

/-!
Marks of models and properties that follow from their types.
-/

namespace ClientTypes.CrossReference

def namedType (m : Model) : Model :=
  if m.dataType = some TargetType.openObject then { m with dataType := some m.classname } else m

/-- Mark a model that wraps a single value by the type of the value. -/
def markWrapper (m : Model) : Model :=
  if m.isEnum then { m with marks := { m.marks with isEnum := true } }
  else match m.dataType with
    | none => m
    | some type =>
      if TargetType.integers.contains type then
        { m with marks := { m.marks with isInteger := true, hasVars := true } }
      else if type = "bool" then
        { m with marks := { m.marks with isBool := true, hasVars := true } }
      else if type = TargetType.string then
        { m with marks := { m.marks with isString := true, hasVars := true } }
      else if type = TargetType.dateTime then
        { m with marks := { m.marks with isDateTime := true, hasVars := true } }
      else m

def markArray (m : Model) : Model :=
  if m.container = some .array then
    { m with marks := { m.marks with isArray := true, hasVars := true } }
  else m

def enumMembersOf (p : Property) : List EnumMember := (p.values.map (·.enumMembers)).getD []

/-- A member stands for the empty text. -/
def isEmptyMember (m : EnumMember) : Bool :=
  match m.value with
  | .text s => s == ""
  | _ => false

def isPlainText (p : Property) : Bool := p.datatype == TargetType.string && p.values.isNone

/-- Mark a property by its names, its type and its values. Marks that are set stay set. -/
def markProperty (p : Property) : Property :=
  let members := enumMembersOf p
  { p with marks := { p.marks with
      keepsName := p.marks.keepsName || p.baseName == p.name
      isString := p.marks.isString || isPlainText p
      isEnum := p.marks.isEnum || (!members.isEmpty && p.baseName != "type")
      hasEmptyMember := p.marks.hasEmptyMember || members.any isEmptyMember } }

/-- Mark the properties of a model, and the model when some property is a text. -/
def markVars (m : Model) : Model :=
  { m with
    vars := m.vars.map markProperty
    marks := { m.marks with hasString := m.marks.hasString || m.vars.any isPlainText } }

def classify (m : Model) : Model := markVars (markArray (markWrapper (namedType m)))

end ClientTypes.CrossReference
