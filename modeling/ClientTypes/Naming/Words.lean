import ClientTypes.Text.Digit
import ClientTypes.Text.Blank
import ClientTypes.Text.Piece

/-!
Changing the case of compound names.

A name is read as words: runs of ASCII letters and digits. All other characters, letters of other
scripts included, only separate words. Camel case joins the words with raised first letters; snake
case joins them with underscores and also cuts inside a word where its case changes.
-/

namespace ClientTypes.Naming

open ClientTypes.Text

/-- The words of a name: its maximal runs of ASCII letters and digits, in order. The first
argument collects the word that is being read, last character first. -/
def wordsFrom (word : List Char) : List Char → List (List Char)
  | [] => if word = [] then [] else [word.reverse]
  | c :: rest =>
    if isWordChar c then wordsFrom (c :: word) rest
    else if word = [] then wordsFrom [] rest
    else word.reverse :: wordsFrom [] rest

def words (name : List Char) : List (List Char) := wordsFrom [] name

/-- Raise the first letter of a word and keep the others as they are. -/
def capitalized : List Char → List Char
  | [] => []
  | c :: rest => c.toUpper :: rest

def camelChars (name : List Char) : List Char := (words name).flatMap capitalized

/-- Camel case: `inline_response_200_1` becomes `InlineResponse2001`. Capitals inside a word stay
capitals. -/
def camelize (name : String) : String := String.ofList (camelChars name.toList)

/-- A word boundary lies before `c`, which follows `previous` and precedes `next`: a small letter
or digit is followed by a capital, or a run of capitals ends in a capitalised word. -/
def boundaryBefore (previous c : Char) (next : Option Char) : Bool :=
  c.isUpper && (previous.isLower || previous.isDigit ||
    (previous.isUpper && (next.map Char.isLower).getD false))

/-- Mark every word boundary with an underscore. The first argument is the character before the
text that is left. -/
def markBoundaries (previous : Option Char) : List Char → List Char
  | [] => []
  | c :: rest =>
    if (previous.map fun p => boundaryBefore p c rest.head?).getD false then
      '_' :: c :: markBoundaries (some c) rest
    else c :: markBoundaries (some c) rest

/-- Replace every run of separators by one underscore. The first argument says that the character
before was already a separator. -/
def joinRuns (inRun : Bool) : List Char → List Char
  | [] => []
  | c :: rest =>
    if isWordChar c then c :: joinRuns false rest
    else if inRun then joinRuns true rest
    else '_' :: joinRuns true rest

def snakeChars (name : List Char) : List Char :=
  (joinRuns false (markBoundaries none name)).map Char.toLower

/-- Snake case: `EscalationPolicy` becomes `escalation_policy`. Separators at the ends of the name
leave one underscore each. -/
def underscore (name : String) : String := String.ofList (snakeChars name.toList)

/-- Snake case without the underscores at its ends, on characters. -/
def bareSnakeChars (name : List Char) : List Char := trimBoth (· == '_') (snakeChars name)

def upperSnakeChars (name : List Char) : List Char := (bareSnakeChars name).map Char.toUpper

/-- Upper snake case: `Vec<FooBar>` becomes `VEC_FOO_BAR`. A name without a word becomes empty. -/
def upperSnake (name : String) : String := String.ofList (upperSnakeChars name.toList)

end ClientTypes.Naming
