import ClientTypes.Config.Reader
import ClientTypes.Text.Encoding
import ClientTypes.Yaml.Reader
import ClientTypes.Value.Display

/-!
Settings in files.

A file of settings is a mapping, and an empty file is an empty one. What it holds lies over the shipped
settings, and settings that are given one by one lie over the file.
-/

namespace ClientTypes.Config

/-- The settings of a text from a file of the given name. -/
def settingsOfText (file text : String) : Except ConfigFault (List (Scalar × Value)) :=
  match Yaml.parse text with
  | .error .malformed => .error (.unreadable file)
  | .error (.badScalar fault) => .error (.badScalar fault)
  | .ok v => match v.opened with
    | .null => .ok []
    | .map entries => .ok entries
    | _ => .error (.notMapping file v.kindName)

/-- The settings of a file, which may be missing. -/
def settingsOfFile (file : String) :
    Option ByteArray → Except ConfigFault (List (Scalar × Value))
  | none => .error (.unreadable file)
  | some bytes => match Text.decode? bytes with
    | none => .error .badEncoding
    | some text => settingsOfText file text

/-- The settings of a run: those given one by one, over those of a file, over the shipped ones. -/
def load (file : Option (String × Option ByteArray)) (overrides : List (String × Value)) :
    Except ConfigFault Config := do
  let settings ← match file with
    | none => .ok []
    | some (name, content) => settingsOfFile name content
  ofSettings (withOverrides settings overrides)

end ClientTypes.Config
