import ClientTypes.Text.Blank
import ClientTypes.Text.Piece

/-!
Notes of an operation as a documentation comment.

Notes are Markdown. A fenced block opens with a line that begins with three backquotes after its
blanks, and the next such line closes it. Opening lines get a tag that keeps the block from being
compiled as an example; then the lines are joined by the break of a documentation comment.
-/

namespace ClientTypes.Linking

open ClientTypes.Text

/-- Three backquotes: what a fence line begins with. -/
def fence : List Char := ['\x60', '\x60', '\x60']

/-- The tag of a block that is not compiled. -/
def skipTag : List Char := "nocompile".toList

/-- What stands between two lines of a documentation comment. -/
def commentBreak : List Char := "\n    /// ".toList

/-- The line begins with a fence after its blanks. -/
def isFence (line : List Char) : Bool := (after? fence (trimBoth isBlank line)).isSome

/-- The tag of an opening fence: what follows the fence, without blanks at its ends. -/
def fenceTag (line : List Char) : List Char :=
  trimBoth isBlank ((after? fence (trimBoth isBlank line)).getD [])

/-- A tag that ends in the tag of a block that is not compiled. -/
def withSkipTag (tag : List Char) : List Char :=
  if (after? skipTag.reverse tag.reverse).isSome then tag
  else if tag = [] then skipTag
  else tag ++ ',' :: skipTag

/-- An opening fence with its tag completed. Its indentation is kept. -/
def openingFence (line : List Char) : List Char :=
  line.takeWhile isBlank ++ fence ++ withSkipTag (fenceTag line)

/-- Complete the tags of the opening fences. The first argument says that a block is open. -/
def markLines (inBlock : Bool) : List (List Char) → List (List Char)
  | [] => []
  | line :: rest =>
    if isFence line then
      (if inBlock then line else openingFence line) :: markLines (!inBlock) rest
    else line :: markLines inBlock rest

/-- Notes as they stand in a documentation comment. -/
def docComment (notes : String) : String :=
  String.ofList (commentBreak.intercalate (markLines false (pieces '\n' notes.toList)))

end ClientTypes.Linking
