import ClientTypes.Yaml.Cursor
import ClientTypes.Yaml.Fault
import ClientTypes.Yaml.Number
import ClientTypes.Yaml.Quoted

/-!
Directives in front of a document.

A directive takes a line of its own behind a percent sign. One says which version of the format a text
follows, at most once and always one of the first series; another one makes a handle stand for the
beginning of tags, each handle at most once. Directives of other names mean nothing.
-/

namespace ClientTypes.Yaml

open Decimal

inductive Directive where
  | version (major : Nat)
  | handle (name : String)
  | other
deriving DecidableEq, Repr

structure Directives where
  hasVersion : Bool := false
  handles : List String := []

def Directives.add (d : Directives) : Directive → Except Fault Directives
  | .version major =>
    if d.hasVersion || major != 1 then .error .malformed else .ok { d with hasVersion := true }
  | .handle name =>
    if d.handles.contains name then .error .malformed
    else .ok { d with handles := name :: d.handles }
  | .other => .ok d

/-- A space, the end of a line, or the end of the text comes next. -/
def atSpaceOrEnd : List Char → Bool
  | [] => true
  | c :: _ => c == ' ' || isBreak c

def dropSpaces (s : List Char) : List Char := s.dropWhile (· == ' ')

/-- A number in front of a text, and what follows it. -/
def directiveNumber (s : List Char) : Except Fault (Nat × List Char) :=
  let digits := s.takeWhile Char.isDigit
  if digits.isEmpty then .error .malformed
  else if integerReach < digits.length then .error (.badScalar .impossible)
  else .ok (valueIn 10 digits, s.drop digits.length)

/-- The version of the format behind its name: two numbers with a point between them. -/
def versionDirective (s : List Char) : Except Fault (Directive × List Char) := do
  let (major, s) ← directiveNumber (dropSpaces s)
  match s with
  | '.' :: s => do
    let (_, s) ← directiveNumber s
    if atSpaceOrEnd s then return (.version major, s) else throw .malformed
  | _ => throw .malformed

/-- A handle: an exclamation mark alone, or two of them with a name or nothing in between. -/
def tagHandle? : List Char → Option (List Char × List Char)
  | '!' :: s =>
    let name := s.takeWhile isNameChar
    match s.drop name.length with
    | '!' :: rest => some ('!' :: name ++ ['!'], rest)
    | rest => if name.isEmpty && rest.head? == some ' ' then some (['!'], rest) else none
  | _ => none

/-- A character of a tag that is written as it is. -/
def isTagChar (c : Char) : Bool := c.isAlphanum || "-;/?:@&=+$,_.!~*\x27()[]".toList.contains c

/-- Bytes that are written as two hexadecimal digits behind a percent sign each, and what follows. -/
def escapedBytes : List Char → Option (List UInt8 × List Char)
  | '%' :: a :: b :: rest => do
    let high ← Text.hexValue? a
    let low ← Text.hexValue? b
    let (bytes, rest) ← escapedBytes rest
    return ((high * 16 + low).toUInt8 :: bytes, rest)
  | '%' :: _ => none
  | s => some ([], s)

/-- Go over the beginning of tags. Bytes that are written by their numbers have to be text. -/
def afterTagPrefix? : (fuel : Nat) → List Char → Option (List Char)
  | 0, _ => none
  | fuel + 1, s =>
    match s with
    | '%' :: _ => do
      let (bytes, rest) ← escapedBytes s
      if (String.fromUTF8? ⟨bytes.toArray⟩).isSome then afterTagPrefix? fuel rest else none
    | c :: rest => if isTagChar c then afterTagPrefix? fuel rest else some s
    | [] => some []

/-- A handle and the beginning of tags behind the name of the directive. -/
def handleDirective? (s : List Char) : Option (Directive × List Char) := do
  let (handle, s) ← tagHandle? (dropSpaces s)
  if s.head? ≠ some ' ' then none
  let start := dropSpaces s
  let rest ← afterTagPrefix? (start.length + 1) start
  if rest.length < start.length && atSpaceOrEnd rest then
    return (.handle (String.ofList handle), rest)
  else none

/-- Read a directive from its percent sign on, up to the end of its line. A comment may end it. -/
def readDirective (c : Cursor) : Except Fault (Directive × Cursor) := do
  let s := c.rest.drop 1
  let name := s.takeWhile isNameChar
  let follows := s.drop name.length
  if name.isEmpty || !atSpaceOrEnd follows then throw .malformed
  let (directive, rest) ← match String.ofList name with
    | "YAML" => versionDirective follows
    | "TAG" => orMalformed (handleDirective? follows)
    | _ => .ok (.other, follows.dropWhile (!isBreak ·))
  let rest := dropSpaces rest
  let rest := if rest.head? = some '#' then rest.dropWhile (!isBreak ·) else rest
  match rest with
  | [] => return (directive, c.advance (c.rest.length - rest.length))
  | ch :: _ =>
    if isBreak ch then return (directive, c.advance (c.rest.length - rest.length))
    else throw .malformed

end ClientTypes.Yaml
