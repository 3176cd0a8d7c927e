import ClientTypes.Yaml.Fault
import ClientTypes.Yaml.Folding
import ClientTypes.Text.Hexadecimal

/-!
Quoted scalars.

Between single quotes only the quote itself is written in a special way, twice. Between double quotes
a backslash begins an escape. Both may go on in later lines, whose indentation means nothing.
-/

namespace ClientTypes.Yaml

/-- The character of an escape of one letter. -/
def escaped? : Char → Option Char
  | '0' => some '\x00'
  | 'a' => some '\x07'
  | 'b' => some '\x08'
  | 't' => some '\t'
  | '\t' => some '\t'
  | 'n' => some '\n'
  | 'v' => some '\x0b'
  | 'f' => some '\x0c'
  | 'r' => some '\r'
  | 'e' => some '\x1b'
  | ' ' => some ' '
  | '"' => some '"'
  | '\\' => some '\\'
  | '/' => some '/'
  | 'N' => some '\u0085'
  | '_' => some '\u00a0'
  | 'L' => some '\u2028'
  | 'P' => some '\u2029'
  | _ => none

/-- How many digits the number of an escape has. -/
def escapeWidth? : Char → Option Nat
  | 'x' => some 2
  | 'u' => some 4
  | 'U' => some 8
  | _ => none

/-- The number that hexadecimal digits stand for. -/
def hexNumber? (digits : List Char) : Option Nat :=
  digits.foldl (fun n c => do return (← n) * 16 + (← Text.hexValue? c)) (some 0)

/-- The character of a number. Half of a pair has no character of its own and reads as the replacement
character. There is nothing beyond the last character, and numbers of more than 31 bits are not even
looked at. -/
def numbered (n : Nat) : Except Fault Char :=
  if n < 0xd800 ∨ (0xe000 ≤ n ∧ n < 0x110000) then .ok (Char.ofNat n)
  else if n < 0xe000 then .ok (Char.ofNat 0xfffd)
  else if n < 0x80000000 then .error (.badScalar .impossible)
  else .error (.badScalar .tooLarge)

def orMalformed {α : Type} : Option α → Except Fault α
  | some a => .ok a
  | none => .error .malformed

/-- Read an escape after its backslash. -/
def escape (c : Cursor) : Except Fault (List Char × Cursor) :=
  match c.rest with
  | [] => .error .malformed
  | letter :: rest =>
    match escaped? letter, escapeWidth? letter with
    | some ch, _ => .ok ([ch], c.step)
    | none, some width => do
      let digits := rest.take width
      if digits.length ≠ width then throw .malformed
      return ([← numbered (← orMalformed (hexNumber? digits))], c.advance (width + 1))
    | none, none =>
      if isBreak letter then orMalformed (blankLines isSpacing (c.remaining + 1) [] c.step)
      else .error .malformed

/-- Read blanks inside a quoted scalar. Before the end of a line they disappear. -/
def quotedGap (c : Cursor) : Option (List Char × Cursor) :=
  let blanks := c.rest.takeWhile isSpacing
  let after := c.advance blanks.length
  match after.rest with
  | [] => none
  | ch :: _ => if isBreak ch then foldedGap isSpacing after else some (blanks, after)

/-- Read one part of a quoted scalar: a run of blanks, an escape, or a character. There is no part at
the closing quote. -/
def quotedPart (quote : Char) (c : Cursor) : Except Fault (Option (List Char × Cursor)) :=
  match c.rest with
  | [] => .error .malformed
  | ch :: rest =>
    if isGap ch then (orMalformed (quotedGap c)).map some
    else if ch = quote then
      if quote = '\x27' ∧ rest.head? = some quote then .ok (some ([quote], c.advance 2))
      else .ok none
    else if ch = '\\' ∧ quote = '"' then (escape c.step).map some
    else .ok (some ([ch], c.step))

/-- The parts of a quoted scalar up to and with its closing quote. -/
def quotedParts (quote : Char) :
    (fuel : Nat) → (read : List Char) → Cursor → Except Fault (String × Cursor)
  | 0, _, _ => .error .malformed
  | fuel + 1, read, c => do
    match ← quotedPart quote c with
    | none => return (String.ofList read.reverse, c.step)
    | some (part, next) => quotedParts quote fuel (part.reverse ++ read) next

/-- The text of a quoted scalar from its opening quote on. -/
def quotedText (c : Cursor) : Except Fault (String × Cursor) :=
  match c.rest with
  | [] => .error .malformed
  | quote :: _ => quotedParts quote (c.remaining + 1) [] c.step

end ClientTypes.Yaml
