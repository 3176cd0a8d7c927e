import ClientTypes.Document.Reader
import ClientTypes.Text.Encoding
import ClientTypes.Yaml.Reader
import ClientTypes.Json.Reader

/-!
Descriptions in files.

A description is a mapping that says under `openapi` or `swagger` which version of the format it
follows. Reading one takes YAML only; telling its dialect falls back to JSON, for JSON text that is not
YAML at the same time.
-/

namespace ClientTypes

inductive Dialect where
  /-- Version 3 of the format. -/
  | openapi
  /-- Version 2 of the format. -/
  | swagger
deriving DecidableEq, Repr

namespace Dialect

def name : Dialect → String
  | .openapi => "openapi"
  | .swagger => "swagger"

/-- The version that a description gives under a key, as text. -/
def versionUnder (entries : List (Scalar × Value)) (key : String) : Except DocumentFault String :=
  match field? entries key with
  | none => .ok ""
  | some version => neededText version.display?

def ofValue? (v : Value) : Except DocumentFault (Option Dialect) :=
  match v.opened with
  | .map entries => do
    if Text.startsWith "3" (← versionUnder entries "openapi") then return some .openapi
    if Text.startsWith "2" (← versionUnder entries "swagger") then return some .swagger
    return none
  | _ => .ok none

/-- The dialect of a text that is no YAML. -/
def ofJson? (text : String) : Except DocumentFault (Option Dialect) :=
  match Json.parse? text with
  | none => .ok none
  | some v => ofValue? v

/-- The dialect of a text. JSON is tried where YAML gives nothing. -/
def ofText? (text : String) : Except DocumentFault (Option Dialect) :=
  match Yaml.parse text with
  | .error (.badScalar fault) => .error (.badScalar fault)
  | .error .malformed | .ok .null => ofJson? text
  | .ok v => ofValue? v

def ofBytes? (bytes : ByteArray) : Except DocumentFault (Option Dialect) :=
  match Text.decode? bytes with
  | none => .error .badEncoding
  | some text => ofText? text

end Dialect

namespace Document

def isDescription (entries : List (Scalar × Value)) : Bool :=
  (field? entries "openapi").isSome || (field? entries "swagger").isSome

def ofText (file text : String) : Except DocumentFault ApiDocument :=
  match Yaml.parse text with
  | .error .malformed => .error (.unreadable file)
  | .error (.badScalar fault) => .error (.badScalar fault)
  | .ok v => match v.opened with
    | .map entries => if isDescription entries then ofValue v else .error (.notADescription file)
    | _ => .error (.notADescription file)

/-- Read a file, which may be missing. -/
def ofFile (file : String) : Option ByteArray → Except DocumentFault ApiDocument
  | none => .error (.unreadable file)
  | some bytes => match Text.decode? bytes with
    | none => .error .badEncoding
    | some text => ofText file text

end Document

end ClientTypes
