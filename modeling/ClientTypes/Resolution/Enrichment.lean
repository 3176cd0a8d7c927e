import ClientTypes.Model
import ClientTypes.Config
import ClientTypes.TargetType

/-!
Refining a property right after its type was found.

Five rules are tried in a fixed order, and the order is run through again until a pass changes
nothing, at most four times. A rule may therefore fit what an earlier one left: the number of points
of a score first gets an integer type of fixed width, and that is then corrected.
-/

namespace ClientTypes.Resolution

/-- A rule gives the refined property, or nothing when it does not fit. -/
abbrev Rule := Property → Option Property

def openObjectRule : Rule := fun p =>
  if p.datatype = TargetType.openObject then some { p with datatype := TargetType.openMap }
  else none

/-- A single value in the format of a point in time gets the type of one. -/
def dateTimeRule : Rule := fun p =>
  if p.dataFormat ≠ some "date-time" ∨ p.container.isSome ∨ p.datatype = TargetType.dateTime then
    none
  else some { p with datatype := TargetType.dateTime }

/-- An integer of the width of a pointer gets a fixed width. -/
def fixedWidthRule : Rule := fun p =>
  if p.datatype = TargetType.pointerSized then some { p with datatype := "i64" } else none

def nameRule (config : Config) : Rule := fun p =>
  match config.nameOverrides.get? p.baseName with
  | none => none
  | some name => if p.name = name then none else some { p with name }

/-- The first correction that fits a property. -/
def correctionOf? (config : Config) (p : Property) : Option FieldCorrection :=
  config.fieldCorrections.find? (·.fits p.baseName p.datatype)

/-- A property whose type is known to be wrong gets the right one. The rule fits even when the right
type is the one it has. -/
def correctionRule (config : Config) : Rule := fun p =>
  (correctionOf? config p).map fun c => { p with datatype := c.replacement }

def rules (config : Config) : List Rule :=
  [openObjectRule, dateTimeRule, fixedWidthRule, nameRule config, correctionRule config]

/-- Try rules in order, each on what the ones before it left. The result says whether any of them
fitted. -/
def applyRules : List Rule → Property → Property × Bool
  | [], p => (p, false)
  | rule :: rest, p =>
    match rule p with
    | some p' => ((applyRules rest p').1, true)
    | none => applyRules rest p

/-- The most passes that are run. -/
def maxPasses : Nat := 4

/-- Run passes until one changes nothing. -/
def enrichWithin (config : Config) : (passes : Nat) → Property → Property
  | 0, p => p
  | passes + 1, p =>
    match applyRules (rules config) p with
    | (p', true) => enrichWithin config passes p'
    | (p', false) => p'

def enrich (config : Config) (p : Property) : Property := enrichWithin config maxPasses p

/-- The report of a pass: the correction that fitted, if one did. -/
def noteOfPass (config : Config) (p : Property) : List String :=
  let corrected := (applyRules ((rules config).take 4) p).1
  match correctionOf? config corrected with
  | none => []
  | some c =>
    ["corrected " ++ p.baseName ++ ": " ++ corrected.datatype ++ " -> " ++ c.replacement]

def enrichNotesWithin (config : Config) : (passes : Nat) → Property → List String
  | 0, _ => []
  | passes + 1, p =>
    match applyRules (rules config) p with
    | (p', true) => noteOfPass config p ++ enrichNotesWithin config passes p'
    | (_, false) => []

def enrichNotes (config : Config) (p : Property) : List String :=
  enrichNotesWithin config maxPasses p

end ClientTypes.Resolution
