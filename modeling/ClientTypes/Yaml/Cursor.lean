import ClientTypes.Yaml.Character

/-!
A place in a text.

The structure of YAML text hangs on columns, and whether something is a key hangs on lines. A cursor
therefore carries both along with the text that is left.
-/

namespace ClientTypes.Yaml

/-- A place in a text: what is left of it, and how much came before. -/
structure Cursor where
  rest : List Char
  /-- The number of characters of the whole text. -/
  size : Nat
  /-- The number of characters before this place. -/
  offset : Nat := 0
  line : Nat := 0
  column : Nat := 0
deriving Repr

namespace Cursor

def ofText (s : List Char) : Cursor := { rest := s, size := s.length }

/-- The number of characters that are left. It is known without counting them. -/
def remaining (c : Cursor) : Nat := c.size - c.offset

/-- Go over one character. A byte order mark takes no column. -/
def step (c : Cursor) : Cursor :=
  match c.rest with
  | [] => c
  | ch :: rest =>
    if isBreak ch then { c with rest, offset := c.offset + 1, line := c.line + 1, column := 0 }
    else
      { c with
        rest
        offset := c.offset + 1
        column := if ch = '\ufeff' then c.column else c.column + 1 }

def advance : (count : Nat) → Cursor → Cursor
  | 0, c => c
  | count + 1, c => advance count c.step

def pass (cut : Char → Bool) (c : Cursor) : Cursor :=
  c.advance (c.rest.takeWhile cut).length

/-- The next token from a place: past spaces, comments and ends of lines. A byte order mark at the
start of the text is passed over as well. Tabs are not. -/
def tokenFrom (size offset line column : Nat) (inComment : Bool) : List Char → Cursor
  | [] => ⟨[], size, offset, line, column⟩
  | ch :: rest =>
    if isBreak ch then tokenFrom size (offset + 1) (line + 1) 0 false rest
    else if inComment || ch == ' ' then
      tokenFrom size (offset + 1) line (column + 1) inComment rest
    else if ch == '#' then tokenFrom size (offset + 1) line (column + 1) true rest
    else if ch == '\ufeff' && offset == 0 then tokenFrom size 1 line column false rest
    else ⟨ch :: rest, size, offset, line, column⟩

def toToken (c : Cursor) : Cursor := tokenFrom c.size c.offset c.line c.column false c.rest

/-- A line begins here with three times a mark and a gap after them. -/
def atMarker (mark : Char) (c : Cursor) : Bool :=
  c.column == 0 && match c.rest with
    | a :: b :: d :: rest => a == mark && b == mark && d == mark && atGap rest
    | _ => false

/-- A line begins here that ends the document or begins another one. -/
def atBoundary (c : Cursor) : Bool := c.atMarker '-' || c.atMarker '.'

def atEnd (c : Cursor) : Bool := c.rest.isEmpty || c.atBoundary

/-- The next character is the given one and a gap follows it. -/
def atMark (mark : Char) (c : Cursor) : Bool :=
  match c.rest with
  | ch :: rest => ch == mark && atGap rest
  | [] => false

/-- The farthest that a colon may be from the start of its key. -/
def keyReach : Nat := 1024

/-- What begins at the first place may be a key when its colon is at the second: a key stays on one
line and is not too long. -/
def isKeyUpTo (start colon : Cursor) : Bool :=
  start.line == colon.line && colon.offset ≤ start.offset + keyReach

end Cursor

end ClientTypes.Yaml
