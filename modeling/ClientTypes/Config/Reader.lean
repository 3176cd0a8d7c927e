import ClientTypes.Config
import ClientTypes.Checked
import ClientTypes.Yaml.Fault

/-!
Reading settings.

Settings come in layers. Each layer replaces whole settings of the layer below: those that are not
mentioned keep what they were.
-/

namespace ClientTypes

open Checked

inductive ConfigFault where
  /-- The file is missing, or its text is not well formed. -/
  | unreadable (file : String)
  /-- The file holds something other than a mapping. -/
  | notMapping (file kind : String)
  /-- Settings have the wrong type. -/
  | invalid (issues : List Issue)
  /-- The name of a setting is no text. -/
  | unnamedSetting
  /-- The bytes of the file are not text. -/
  | badEncoding
  /-- A scalar of the file has the form of a value that does not exist. -/
  | badScalar (fault : Yaml.ScalarFault)
deriving Repr

/-- The message of a fault that has one. -/
def ConfigFault.message? : ConfigFault → Option String
  | .unreadable file => some ("Cannot read config " ++ file)
  | .notMapping file kind => some ("Config " ++ file ++ " must be a mapping, got " ++ kind)
  | .invalid _ | .unnamedSetting | .badEncoding | .badScalar _ => none

def FieldCorrection.ofValue : Value → Checked FieldCorrection :=
  recordOf fun es => FieldCorrection.mk
    <$> needed es "datatype" text
    <*> needed es "replacement" text
    <*> fieldOr es "base_name" none (optional text)

def DiscriminatorDefault.ofValue : Value → Checked DiscriminatorDefault :=
  recordOf fun es => DiscriminatorDefault.mk <$> needed es "field" text <*> needed es "value" text

namespace Config

/-- Read settings over others: what is not mentioned stays as it is in `base`. -/
def readOver (base : Config) (es : List (Scalar × Value)) : Checked Config :=
  Config.mk
    <$> fieldOr es "target_api_prefix" base.targetPrefix (optional text)
    <*> fieldOr es "skip_serializing_if_none" base.skipsNone flag
    <*> fieldOr es "package_version" base.packageVersion text
    <*> fieldOr es "denylist" base.denylist (listOf text)
    <*> fieldOr es "name_overrides" base.nameOverrides (tableOf text)
    <*> fieldOr es "field_corrections" base.fieldCorrections (listOf FieldCorrection.ofValue)
    <*> fieldOr es "response_type_overrides" base.responseTypes (tableOf text)
    <*> fieldOr es "pagination_bases" base.paginationBases (listOf text)
    <*> fieldOr es "discriminator_defaults" base.discriminators
      (listOf DiscriminatorDefault.ofValue)
    <*> fieldOr es "reference_overrides" base.referenceOverrides (listOf text)
    <*> fieldOr es "no_default_types" base.noDefaultTypes (listOf text)
    <*> fieldOr es "ignored_query_params" base.ignoredQueryParams (listOf text)
    <*> fieldOr es "operation_name_extension" base.operationNameKey text

/-- Every key is a text. -/
def allNamed : List (Scalar × Value) → Bool
  | [] => true
  | (.text _, _) :: rest => allNamed rest
  | _ :: _ => false

/-- Lay settings given one by one over those of a file. A setting given as null does not count. -/
def withOverrides (settings : List (Scalar × Value)) (overrides : List (String × Value)) :
    List (Scalar × Value) :=
  overrides.foldl (fun acc (name, v) =>
    match v with
    | .null => acc
    | v => Scalar.putIn acc (.text name) v) settings

def ofSettings (settings : List (Scalar × Value)) : Except ConfigFault Config :=
  if allNamed settings then (readOver shipped settings).orThrow .invalid
  else .error .unnamedSetting

/-- Settings over those that hold when even the shipped ones are left out. -/
def ofBareSettings (settings : List (Scalar × Value)) : Except ConfigFault Config :=
  if allNamed settings then (readOver {} settings).orThrow .invalid
  else .error .unnamedSetting

end Config

end ClientTypes
