import ClientTypes.Yaml.Cursor

/-!
Ends of lines inside scalars.

In plain and quoted scalars a single end of a line reads as a space, and of several ends the first one
disappears. Blank lines in between may hold spaces. A line that ends the document may not stand inside.
-/

namespace ClientTypes.Yaml

/-- What an end of a line reads as: the separators of Unicode stay, the others are line feeds. -/
def breakText (c : Char) : Char := if c == '\u0085' then '\n' else c

/-- Blank lines from the start of a line on: the ends of these lines, and the place of the first
character that is not skipped. There is nothing when the document ends here. -/
def blankLines (isSkipped : Char → Bool) :
    (fuel : Nat) → (breaks : List Char) → Cursor → Option (List Char × Cursor)
  | 0, _, _ => none
  | fuel + 1, breaks, c =>
    if c.atBoundary then none
    else
      let c := c.pass isSkipped
      match c.rest with
      | ch :: _ =>
        if isBreak ch then blankLines isSkipped fuel (breaks ++ [breakText ch]) c.step
        else some (breaks, c)
      | [] => some (breaks, c)

/-- What the end of a line and the blank lines after it read as. -/
def fold (first : Char) (breaks : List Char) : List Char :=
  if breakText first ≠ '\n' then breakText first :: breaks
  else if breaks.isEmpty then [' ']
  else breaks

/-- Read the end of a line and the blank lines after it. -/
def foldedGap (isSkipped : Char → Bool) (c : Cursor) : Option (List Char × Cursor) :=
  match c.rest with
  | [] => none
  | first :: _ =>
    (blankLines isSkipped (c.remaining + 1) [] c.step).map fun (breaks, c) => (fold first breaks, c)

end ClientTypes.Yaml
