import ClientTypes.Yaml.Folding

/-!
Block scalars.

A block scalar is a run of lines that are indented deeper than the collection around it. After `|` the
ends of lines stay; after `>` an end between two lines that begin with text reads as a space. Marks
after the indicator say what becomes of the ends after the last line, and how deep the block is
indented.
-/

namespace ClientTypes.Yaml

/-- What becomes of the ends of lines after the last line of text. -/
inductive Chomping where
  /-- None stays. -/
  | strip
  /-- The first one stays. -/
  | clip
  /-- All stay. -/
  | keep
deriving DecidableEq, Repr

/-- What is written in the first line of a block scalar. -/
structure BlockStyle where
  folded : Bool
  chomping : Chomping := .clip
  /-- How much deeper than the collection around it the block is indented. -/
  increment : Option Nat := none
deriving DecidableEq, Repr

def chomping? : Char → Option Chomping
  | '+' => some .keep
  | '-' => some .strip
  | _ => none

/-- The value of a digit that gives an indentation. Zero is none. -/
def increment? (c : Char) : Option Nat :=
  if c.isDigit && c != '0' then some (c.toNat - 48) else none

/-- Read the marks after the indicator, in either order, and count them. -/
def blockMarks (folded : Bool) (s : List Char) : BlockStyle × Nat :=
  match s with
  | [] => ({ folded }, 0)
  | a :: rest =>
    match chomping? a, increment? a with
    | some chomping, _ => match rest.head?.bind increment? with
      | some n => ({ folded, chomping, increment := some n }, 2)
      | none => ({ folded, chomping }, 1)
    | none, some n => match rest.head?.bind chomping? with
      | some chomping => ({ folded, chomping, increment := some n }, 2)
      | none => ({ folded, increment := some n }, 1)
    | none, none => ({ folded }, 0)

/-- Read the rest of the first line: spaces and a comment. -/
def blockHeaderEnd (c : Cursor) : Option Cursor :=
  match c.rest with
  | [] => some c
  | ch :: _ =>
    if ch = ' ' ∨ isBreak ch then
      let c := c.pass (· == ' ')
      let c := if c.rest.head? = some '#' then c.pass (!isBreak ·) else c
      match c.rest with
      | [] => some c
      | ch :: _ => if isBreak ch then some c.step else none
    else none

/-- Read the first line of a block scalar from its indicator on. -/
def blockHeader (c : Cursor) : Option (BlockStyle × Cursor) :=
  match c.rest with
  | [] => none
  | indicator :: rest =>
    let (style, count) := blockMarks (indicator == '>') rest
    (blockHeaderEnd (c.step.advance count)).map (style, ·)

/-- Blank lines before the first line of text: their ends, the deepest column reached in them, and the
place of the first character. -/
def leadingLines :
    (fuel : Nat) → (breaks : List Char) → (deepest : Nat) → Cursor → List Char × Nat × Cursor
  | 0, breaks, deepest, c => (breaks, deepest, c)
  | fuel + 1, breaks, deepest, c =>
    let c := c.pass (· == ' ')
    let deepest := max deepest c.column
    match c.rest with
    | ch :: _ =>
      if isBreak ch then leadingLines fuel (breaks ++ [breakText ch]) deepest c.step
      else (breaks, deepest, c)
    | [] => (breaks, deepest, c)

def indentTo (column : Nat) (c : Cursor) : Cursor :=
  c.advance (((c.rest.take (column - c.column)).takeWhile (· == ' ')).length)

/-- Blank lines inside a block, and the indentation of the line after them. -/
def innerLines (indent : Nat) :
    (fuel : Nat) → (breaks : List Char) → Cursor → List Char × Cursor
  | 0, breaks, c => (breaks, c)
  | fuel + 1, breaks, c =>
    let c := indentTo indent c
    match c.rest with
    | ch :: _ =>
      if isBreak ch then innerLines indent fuel (breaks ++ [breakText ch]) c.step else (breaks, c)
    | [] => (breaks, c)

/-- The text of a block, without what depends on the chomping. -/
structure BlockText where
  /-- The lines of text, last character first. -/
  read : List Char
  /-- The end of the last line. -/
  lastBreak : List Char
  /-- The ends of the blank lines after it. -/
  breaks : List Char
  /-- The place after the block. -/
  finish : Cursor

/-- A line of text begins at this place. -/
def atBlockLine (indent : Nat) (c : Cursor) : Bool := c.column == indent && !c.rest.isEmpty

def atSpacing (c : Cursor) : Bool := (c.rest.head?.map isSpacing).getD false

/-- What stands between two lines of text. -/
def lineGlue (style : BlockStyle) (line next : Cursor) (lastBreak breaks : List Char) :
    List Char :=
  if style.folded && lastBreak == ['\n'] && !atSpacing line && !atSpacing next then
    if breaks.isEmpty then [' '] else []
  else lastBreak

/-- The lines of a block from the start of a line on. -/
def blockLines (style : BlockStyle) (indent : Nat) :
    (fuel : Nat) → (read breaks : List Char) → Cursor → BlockText
  | 0, read, breaks, c => ⟨read, [], breaks, c⟩
  | fuel + 1, read, breaks, c =>
    if atBlockLine indent c then
      let line := c.rest.takeWhile (!isBreak ·)
      let after := c.advance line.length
      let lastBreak := (after.rest.take 1).map breakText
      let (inner, next) := innerLines indent (after.remaining + 1) [] after.step
      let read := line.reverse ++ breaks.reverse ++ read
      if atBlockLine indent next then
        blockLines style indent fuel
          ((lineGlue style c next lastBreak inner).reverse ++ read) inner next
      else ⟨read, lastBreak, inner, next⟩
    else ⟨read, [], breaks, c⟩

/-- The text of a block with what its chomping leaves at the end. -/
def BlockText.text (t : BlockText) (chomping : Chomping) : String :=
  String.ofList <| t.read.reverse ++ match chomping with
    | .strip => []
    | .clip => t.lastBreak
    | .keep => t.lastBreak ++ t.breaks

/-- The least column of a block inside a collection that is indented to `parent`. -/
def leastIndent : (parent : Option Nat) → Nat
  | none => 1
  | some column => column + 1

def blockText (parent : Option Nat) (c : Cursor) : Option (String × Cursor) := do
  let (style, start) ← blockHeader c
  let least := leastIndent parent
  let fuel := start.remaining + 1
  let (breaks, indent, first) := match style.increment with
    | some n =>
      let indent := least + n - 1
      let (breaks, first) := innerLines indent fuel [] start
      (breaks, indent, first)
    | none =>
      let (breaks, deepest, first) := leadingLines fuel [] 0 start
      (breaks, max least deepest, first)
  let block := blockLines style indent fuel [] breaks first
  return (block.text style.chomping, block.finish)

end ClientTypes.Yaml
