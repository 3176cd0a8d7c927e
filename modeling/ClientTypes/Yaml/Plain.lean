import ClientTypes.Yaml.Folding

/-!
Plain scalars.

A plain scalar has no quotes. It ends at a colon with a gap after it, at a comment, and inside brackets
also at the marks of the collection. It goes on in later lines that are indented deeper than the
collection around it.
-/

namespace ClientTypes.Yaml

inductive Context where
  /-- Inside brackets, where columns mean nothing. -/
  | bracketed
  /-- In a collection that is written by indentation from a column on, or in none. -/
  | indented (parent : Option Nat)
deriving DecidableEq, Repr

def Context.isBracketed : Context → Bool
  | .bracketed => true
  | .indented _ => false

/-- A line that begins at a column belongs to a node that stands here. -/
def Context.admits (column : Nat) : Context → Bool
  | .bracketed => true
  | .indented none => true
  | .indented (some parent) => parent < column

def beginsPlain (bracketed : Bool) : List Char → Bool
  | [] => false
  | c :: rest =>
    if indicators.contains c then
      !atGap rest && (c == '-' || (!bracketed && (c == '?' || c == ':')))
    else !isGap c

/-- The part of a plain scalar up to the next gap or to its end. -/
def plainRun (bracketed : Bool) : List Char → List Char
  | [] => []
  | c :: rest =>
    if isGap c then []
    else if c == ':' && (atGap rest || (bracketed && (rest.head?.map isBracketMark).getD false)) then
      []
    else if bracketed && (isBracketMark c || c == '?') then []
    else c :: plainRun bracketed rest

/-- What stands between a run and the next one of the same scalar, if there can be a next one. -/
def plainGap (context : Context) (c : Cursor) : Option (List Char × Cursor) := do
  let spaces := c.rest.takeWhile (· == ' ')
  let after := c.advance spaces.length
  let (gap, next) ←
    if (after.rest.head?.map isBreak).getD false then foldedGap (· == ' ') after
    else if spaces.isEmpty then none
    else some (spaces, after)
  if next.rest.head? = some '#' then none
  else if context.admits next.column || next.line == c.line then some (gap, next)
  else none

/-- The runs of a plain scalar from the first character of a run on. What was read so far is collected
last character first; the last cursor is where the scalar ends if no run follows. -/
def plainRuns (context : Context) :
    (fuel : Nat) → (read gap : List Char) → (finish : Cursor) → Cursor → List Char × Cursor
  | 0, read, _, finish, _ => (read, finish)
  | fuel + 1, read, gap, finish, c =>
    match plainRun context.isBracketed c.rest with
    | [] => (read, finish)
    | run =>
      let read := run.reverse ++ gap.reverse ++ read
      let after := c.advance run.length
      match plainGap context after with
      | none => (read, after)
      | some (gap, next) => plainRuns context fuel read gap after next

def plainText (context : Context) (c : Cursor) : String × Cursor :=
  let (read, finish) := plainRuns context (c.remaining + 1) [] [] c c
  (String.ofList read.reverse, finish)

end ClientTypes.Yaml
