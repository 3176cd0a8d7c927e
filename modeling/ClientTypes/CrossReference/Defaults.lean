import ClientTypes.Model
import ClientTypes.Config
import ClientTypes.Naming.Words

/-!
Default values of fields, and which fields are optional.
-/

namespace ClientTypes.CrossReference

/-- The last entry of the configuration for a field. -/
def discriminator? (config : Config) (field : String) : Option DiscriminatorDefault :=
  config.discriminators.reverse.find? (·.field == field)

/-- The value that a discriminator gives a field of a model. -/
def discriminatorValue (d : DiscriminatorDefault) (m : Model) : String :=
  if d.value = "snake_name" then Naming.underscore m.name else m.name

/-- The property takes one of the members of an enumeration. -/
def hasEnumMembers (p : Property) : Bool := p.values.any fun v => !v.enumMembers.isEmpty

/-- The value that a property gets by default: that of its discriminator, unless the property is an
enumeration. -/
def defaultOf? (config : Config) (m : Model) (p : Property) : Option FieldDefault :=
  match discriminator? config p.name with
  | none => none
  | some d => if hasEnumMembers p then none else some ⟨d.field, discriminatorValue d m⟩

/-- Mark a property that has a discriminator: as an enumeration, or with its default value. -/
def markDefault (config : Config) (m : Model) (p : Property) : Property :=
  match discriminator? config p.name, defaultOf? config m p with
  | none, _ => p
  | some _, none => { p with marks := { p.marks with isEnum := true } }
  | some _, some d =>
    { p with marks := { p.marks with
        isRequired := true, hasDefault := true, defaultValue := some d.value } }

/-- Add a default value to a list that does not have it. -/
def addDefault (defaults : List FieldDefault) (d : FieldDefault) : List FieldDefault :=
  if defaults.contains d then defaults else defaults ++ [d]

/-- Give the properties of a model their default values. -/
def synthesizeDefaults (config : Config) (m : Model) : Model :=
  let found := m.vars.filterMap (defaultOf? config m)
  { m with
    vars := m.vars.map (markDefault config m)
    marks := { m.marks with
      defaults := found.foldl addDefault m.marks.defaults
      hasDefault := m.marks.hasDefault || !found.isEmpty } }

/-- Decide whether a property of a model is optional. A property that has to be given is not, when
its type has a default value and its model does not keep references; any other property is left out
when it has no value, if the configuration says so. -/
def markOptional (config : Config) (classname : String) (p : Property) : Property :=
  if p.required then
    if !config.noDefaultTypes.contains p.datatype && !config.keepsReferences classname then
      { p with marks := { p.marks with isRequired := true } }
    else p
  else if p.marks.isRequired then p
  else { p with marks := { p.marks with skipsNone := config.skipsNone } }

def deoptionalize (config : Config) (m : Model) : Model :=
  { m with vars := m.vars.map (markOptional config m.classname) }

/-- Default values first, because a property with one is not optional. -/
def applyDefaults (config : Config) (m : Model) : Model :=
  if m.removed then m else deoptionalize config (synthesizeDefaults config m)

end ClientTypes.CrossReference
