import ClientTypes.Checked
import ClientTypes.Yaml.Fault

/-!
What can be wrong with an API description.
-/

namespace ClientTypes

inductive DocumentFault where
  /-- The file is missing, or its text is not well formed. -/
  | unreadable (file : String)
  /-- The file holds something else. -/
  | notADescription (file : String)
  /-- A reference to a shared component leads nowhere, or in a circle. -/
  | danglingReference (reference : String)
  /-- A parameter, given by its text, has no name. -/
  | namelessParameter (parameter : String)
  /-- Parts of a record have the wrong type. -/
  | invalid (issues : List Issue)
  /-- A value without named parts stands where a mapping or a text is needed. -/
  | noMembers
  /-- A value that is no sequence stands where one is walked or joined. -/
  | notIterable
  /-- A value that has no text stands where its text is needed. -/
  | noText
  /-- A schema is a part of itself. -/
  | endless
  /-- The bytes of the file are not text. -/
  | badEncoding
  /-- A scalar of the file has the form of a value that does not exist. -/
  | badScalar (fault : Yaml.ScalarFault)
deriving Repr

/-- The message of a fault that has one. Faults of the shape of the data have none. -/
def DocumentFault.message? : DocumentFault → Option String
  | .unreadable file => some ("Cannot read " ++ file)
  | .notADescription file => some (file ++ " is not an OpenAPI or Swagger document")
  | .danglingReference reference => some ("Cannot resolve reference " ++ reference)
  | .namelessParameter parameter => some ("Parameter without a name: " ++ parameter)
  | .invalid _ | .noMembers | .notIterable | .noText | .endless | .badEncoding | .badScalar _ => none

def neededText : Option String → Except DocumentFault String
  | some s => .ok s
  | none => .error .noText

end ClientTypes
