import ClientTypes.Model
import ClientTypes.Hints
import ClientTypes.Naming.Identifier
import ClientTypes.Naming.Placeholder
import ClientTypes.Report

/-!
Giving models their friendly names.

Live models are taken in order. A model is renamed after its own hint, after the hint of the
placeholder that its classname goes on from, or, for the model of a union, by leaving out the mark
of a union. A name that is taken by another live model is tried once more with `Enum` at its end.
When all new names are known, every identifier in every type is replaced.

A list of variants that is shown in several places is gone over once for each of its places.
-/

namespace ClientTypes.CrossReference

open Naming

def unionFronts : List String := ["OneOf", "AnyOf"]

/-- A classname without the mark of a union. A classname that is nothing but the mark keeps it. -/
def withoutUnionFront (classname : String) : String :=
  (unionFronts.findSome? fun front =>
    (Text.dropFront? front classname).filter (· ≠ "")).getD classname

/-- The name that a model should get, if there is one. -/
def friendlyName? (hints : Hints) (m : Model) : Option String :=
  let classname := withoutUnionFront m.classname
  let suffix := if m.isUnion then "Enum" else ""
  match hints.get? classname with
  | some friendly => some (friendly ++ suffix)
  | none =>
    match hints.longestFront? classname with
    | some (key, friendly) =>
      some (friendly ++ (Text.dropFront? key classname).getD "" ++ suffix)
    | none => if classname ≠ m.classname then some classname else none

/-- The model is the body of a request that has a friendly name. -/
def isHintedBody (hints : Hints) (m : Model) : Bool :=
  let classname := withoutUnionFront m.classname
  (hints.get? classname).isSome && isBodyClassname classname

/-- What is known while models are renamed one after another. -/
structure RenameState where
  /-- The classnames of live models. -/
  taken : List String
  /-- New classnames by old ones, in order of renaming. -/
  renames : Table String String := []
deriving Repr

inductive Decision where
  | keep
  | rename (target : String)
  /-- Both names that were tried are taken. -/
  | blocked (target : String)
deriving DecidableEq, Repr

/-- The second name that is tried: with `Enum` at its end, unless it ends so already. -/
def withEnum (target : String) : String :=
  if Text.endsWith "Enum" target then target else target ++ "Enum"

def decide (hints : Hints) (taken : List String) (m : Model) : Decision :=
  match friendlyName? hints m with
  | none => .keep
  | some target =>
    if target = m.classname then .keep
    else if taken.contains target then
      if taken.contains (withEnum target) then .blocked target else .rename (withEnum target)
    else .rename target

def markBody (hints : Hints) (m : Model) : Model :=
  { m with marks := { m.marks with bodyModel := m.marks.bodyModel || isHintedBody hints m } }

/-- Give a model its new name and take note of it. -/
def RenameState.rename (s : RenameState) (old new : String) : RenameState where
  taken := s.taken.filter (· ≠ old) ++ [new]
  renames := s.renames.put old new

/-- Rename live models in order. The result has all models, with the state after the last one. -/
def renameModels (hints : Hints) (s : RenameState) : List Model → List Model × RenameState
  | [] => ([], s)
  | m :: rest =>
    if m.removed then
      let (more, s') := renameModels hints s rest
      (m :: more, s')
    else match decide hints s.taken m with
      | .rename target =>
        let (more, s') := renameModels hints (s.rename m.classname target) rest
        ({ markBody hints m with classname := target } :: more, s')
      | .keep | .blocked _ =>
        let (more, s') := renameModels hints s rest
        (markBody hints m :: more, s')

def renameNotes (hints : Hints) (s : RenameState) : List Model → List Report
  | [] => []
  | m :: rest =>
    if m.removed then renameNotes hints s rest
    else match decide hints s.taken m with
      | .keep => renameNotes hints s rest
      | .blocked target =>
        ⟨.registry, .info,
          "cannot rename " ++ m.classname ++ " to " ++ target ++ ": name already taken"⟩ ::
          renameNotes hints s rest
      | .rename target =>
        ⟨.registry, .debug, "renaming " ++ m.classname ++ " -> " ++ target⟩ ::
          renameNotes hints (s.rename m.classname target) rest

/-! ### Every type of a model -/

mutual
/-- Change every type and every set of values of a property and of the properties inside it. -/
def mapProperty (onType : String → String) (onValues : AllowableValues → AllowableValues) :
    Property → Property
  | { baseName, name, datatype, dataFormat, container, items, values, description, required,
      marks := m@{ entries, .. } } =>
    { baseName, name, datatype := onType datatype, dataFormat, container,
      items := mapItems onType onValues items, values := values.map onValues, description, required,
      marks := { m with entries := mapProperties onType onValues entries } }
def mapItems (onType : String → String) (onValues : AllowableValues → AllowableValues) :
    Option Property → Option Property
  | none => none
  | some p => some (mapProperty onType onValues p)
def mapProperties (onType : String → String) (onValues : AllowableValues → AllowableValues) :
    List Property → List Property
  | [] => []
  | p :: rest => mapProperty onType onValues p :: mapProperties onType onValues rest
end

mutual
/-- The sets of values of a property and of the properties inside it. -/
def valuesInProperty : Property → List AllowableValues
  | { items, values, marks := { entries, .. }, .. } =>
    valuesInItems items ++ values.toList ++ valuesInProperties entries
def valuesInItems : Option Property → List AllowableValues
  | none => []
  | some p => valuesInProperty p
def valuesInProperties : List Property → List AllowableValues
  | [] => []
  | p :: rest => valuesInProperty p ++ valuesInProperties rest
end

def valuesInModel (m : Model) : List AllowableValues := m.values.toList ++ valuesInProperties m.vars

/-- How often a shared list of variants is shown among models. -/
def timesShown (models : List Model) (number : Nat) : Nat :=
  ((models.flatMap valuesInModel).filter (·.sharedList == some number)).length

/-- Apply a function again and again. -/
def iterate {α : Type} (f : α → α) : Nat → α → α
  | 0, a => a
  | n + 1, a => iterate f n (f a)

/-- Rename the types of variants. A list that is shown in several places is gone over once for each
of them. -/
def renameValues (renames : Table String String) (shown : Nat → Nat) (v : AllowableValues) :
    AllowableValues :=
  let times := match v.sharedList with
    | some number => shown number
    | none => 1
  { v with variants := v.variants.map fun variant =>
      { variant with datatype := iterate (renameIdentifiers renames) times variant.datatype } }

/-- Rename every type of a model. Its classname stays. -/
def renameTypes (renames : Table String String) (shown : Nat → Nat) (m : Model) : Model :=
  { m with
    dataType := m.dataType.map (renameIdentifiers renames)
    containerInner := m.containerInner.map (renameIdentifiers renames)
    values := m.values.map (renameValues renames shown)
    vars := mapProperties (renameIdentifiers renames) (renameValues renames shown) m.vars
    marks := { m.marks with
      paginationInner := m.marks.paginationInner.map (renameIdentifiers renames) } }

/-- Rename every type of every model, removed ones included. -/
def renameAllTypes (renames : Table String String) (models : List Model) : List Model :=
  if renames.isEmpty then models else models.map (renameTypes renames (timesShown models))

/-- The state before the first model is renamed. -/
def RenameState.initial (models : List Model) : RenameState where
  taken := (models.filter (!·.removed)).map (·.classname)

/-- Give live models their friendly names and rename every type. -/
def rename (hints : Hints) (models : List Model) : List Model × Table String String :=
  let (renamed, s) := renameModels hints (.initial models) models
  (renameAllTypes s.renames renamed, s.renames)

end ClientTypes.CrossReference
