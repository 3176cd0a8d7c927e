/-!
Control sequences of terminals in a text.

A control sequence is an escape character and a bracket, then parameters, then marks, and one last
character. The three kinds of characters have nothing in common, so a sequence ends in one way only. An
escape character that begins no whole sequence is text like any other.
-/

namespace ClientTypes.Text

/-- The character is a parameter of a control sequence: a digit, or a sign next to the digits. -/
def isParameter (c : Char) : Bool := '0' ≤ c && c ≤ '?'

/-- The character is a mark between the parameters and the end of a control sequence. -/
def isMark (c : Char) : Bool := ' ' ≤ c && c ≤ '/'

def isFinal (c : Char) : Bool := '@' ≤ c && c ≤ '~'

/-- The length of the control sequence in front of a text; zero when there is none. -/
def controlLength : List Char → Nat
  | '\x1b' :: '[' :: rest =>
    let parameters := rest.takeWhile isParameter
    let rest := rest.drop parameters.length
    let marks := rest.takeWhile isMark
    match rest.drop marks.length with
    | last :: _ => if isFinal last then parameters.length + marks.length + 3 else 0
    | [] => 0
  | _ => 0

/-- Leave out control sequences from left to right. The first argument counts the characters of the last
one that are still to be passed over. -/
def dropControls : (skip : Nat) → List Char → List Char
  | _, [] => []
  | skip + 1, _ :: rest => dropControls skip rest
  | 0, c :: rest =>
    match controlLength (c :: rest) with
    | 0 => c :: dropControls 0 rest
    | more + 1 => dropControls more rest

/-- A text without its control sequences. What is left of it is not looked at again. -/
def withoutControls (s : String) : String := String.ofList (dropControls 0 s.toList)

end ClientTypes.Text
