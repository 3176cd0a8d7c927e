import ClientTypes.Text.Digit
import ClientTypes.Text.Piece

/-!
Numbered names of inline schemas.

Digits of every script count as digits of a number, and one line break may follow the name.
-/

namespace ClientTypes.Naming

open ClientTypes.Text

def afterNumber? (s : List Char) : Option (List Char) :=
  match s with
  | [] => none
  | c :: rest => if isDigitOfScript c then some (rest.dropWhile isDigitOfScript) else none

/-- Nothing follows, or a single line break. -/
def isEnd (s : List Char) : Bool := s == [] || s == ['\n']

/-- The rest of a name ends after a number. -/
def isNumber (s : List Char) : Bool := (afterNumber? s).any isEnd

/-- The name is `front` and a number. -/
def isNumbered (front name : String) : Bool := (after? front.toList name.toList).any isNumber

/-- A name that is given to the schema of a body. -/
def isBodyName (name : String) : Bool := isNumbered "body_" name

/-- A classname that is given to the schema of a body. -/
def isBodyClassname (classname : String) : Bool := isNumbered "Body" classname

/-- A name that is given to the schema of a response: a code, and for further responses of the code an
underscore and a number. -/
def isResponseName (name : String) : Bool :=
  ((after? "inline_response_".toList name.toList).bind afterNumber?).any fun rest =>
    isEnd rest || (match rest with
      | '_' :: more => isNumber more
      | _ => false)

end ClientTypes.Naming
