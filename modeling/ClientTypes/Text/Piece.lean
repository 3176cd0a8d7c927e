/-!
Cutting a text at a separator, and replacing parts of it.

Everything here works on the characters of a text, so that the laws are inductions over a list.
The functions on `String` are the same functions between two changes of view.
-/

namespace ClientTypes.Text

/-- Cut at every `separator`. There is always at least one piece, and pieces may be empty. -/
def pieces (separator : Char) : List Char → List (List Char)
  | [] => [[]]
  | c :: rest =>
    if c = separator then [] :: pieces separator rest
    else match pieces separator rest with
      | [] => [[c]]
      | piece :: more => (c :: piece) :: more

def split (separator : Char) (s : String) : List String :=
  (pieces separator s.toList).map String.ofList

/-- What follows `front` in a text that begins with it. -/
def after? : (front s : List Char) → Option (List Char)
  | [], s => some s
  | _ :: _, [] => none
  | f :: front, c :: s => if f = c then after? front s else none

/-- What follows `front` in a text that begins with it. -/
def dropFront? (front s : String) : Option String :=
  (after? front.toList s.toList).map String.ofList

/-- The text begins with `front`. -/
def startsWith (front s : String) : Bool := (after? front.toList s.toList).isSome

/-- What precedes `back` in a text that ends with it. -/
def dropBack? (back s : String) : Option String :=
  (after? back.toList.reverse s.toList.reverse).map fun front => String.ofList front.reverse

/-- The text ends with `back`. -/
def endsWith (back s : String) : Bool := (dropBack? back s).isSome

/-- Replace `old` from left to right, never inside a part that was already replaced. An empty
`old` replaces nothing. The first argument counts the characters of the last match that are still
to be passed over. -/
def replaceFrom (old new : List Char) : Nat → List Char → List Char
  | _, [] => []
  | skip + 1, _ :: rest => replaceFrom old new skip rest
  | 0, c :: rest =>
    if old ≠ [] ∧ (after? old (c :: rest)).isSome then
      new ++ replaceFrom old new (old.length - 1) rest
    else c :: replaceFrom old new 0 rest

/-- Replace every occurrence of `old`, from left to right. -/
def replace (old new s : String) : String :=
  String.ofList (replaceFrom old.toList new.toList 0 s.toList)

/-- The text occurs somewhere inside `s`. -/
def occursIn (part : List Char) : List Char → Bool
  | [] => part.isEmpty
  | c :: rest => (after? part (c :: rest)).isSome || occursIn part rest

end ClientTypes.Text
