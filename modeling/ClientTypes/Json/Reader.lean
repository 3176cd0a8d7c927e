import ClientTypes.Value
import ClientTypes.Decimal.Reach
import ClientTypes.Text.Hexadecimal

/-!
JSON text as a value.

The reader takes the strict format: no comments, no trailing commas, no control characters inside
texts, and nothing but blanks around the value. The order of keys is kept; a key that is written
twice keeps its first place and takes its last value. A number with a point or an exponent is a
floating point number, any other an integer of up to 4300 digits. Two escapes of four digits that form one
character beyond the basic plane are read as that character.
-/

namespace ClientTypes.Json

open Decimal Text

def isJsonBlank (c : Char) : Bool := c == ' ' || c == '\t' || c == '\n' || c == '\r'

def skipBlanks (s : List Char) : List Char := s.dropWhile isJsonBlank

/-- The number of the four hexadecimal digits in front of a text. -/
def hexQuad? : List Char → Option Nat
  | a :: b :: c :: d :: _ => do
    let a ← hexValue? a
    let b ← hexValue? b
    let c ← hexValue? c
    let d ← hexValue? d
    some (((a * 16 + b) * 16 + c) * 16 + d)
  | _ => none

/-- The number of the second half of a pair, if the text goes on with the escape of one. -/
def secondHalf? : List Char → Option (Option Nat)
  | '\\' :: 'u' :: rest => (hexQuad? rest).map fun n =>
    if 0xdc00 ≤ n ∧ n < 0xe000 then some n else none
  | _ => some none

/-- The character of an escape by number, and how many characters its digits take. A number that is the
first half of a pair takes the second half with it. -/
def numberedChar (s : List Char) : Option (Char × Nat) := do
  let first ← hexQuad? s
  if 0xd800 ≤ first ∧ first < 0xdc00 then
    match ← secondHalf? (s.drop 4) with
    | some second =>
      return (Char.ofNat (0x10000 + (first - 0xd800) * 0x400 + (second - 0xdc00)), 10)
    | none => return (Char.ofNat 0xfffd, 4)
  else if 0xdc00 ≤ first ∧ first < 0xe000 then return (Char.ofNat 0xfffd, 4)
  else return (Char.ofNat first, 4)

def lettered? : Char → Option Char
  | '"' => some '"'
  | '\\' => some '\\'
  | '/' => some '/'
  | 'b' => some '\x08'
  | 'f' => some '\x0c'
  | 'n' => some '\n'
  | 'r' => some '\r'
  | 't' => some '\t'
  | _ => none

/-- The character of an escape behind its backslash, and how many characters it takes. -/
def escaped? : List Char → Option (Char × Nat)
  | 'u' :: rest => (numberedChar rest).map fun (c, count) => (c, count + 1)
  | letter :: _ => (lettered? letter).map fun c => (c, 1)
  | [] => none

/-- The characters of a text after its opening quote. The characters read so far are collected last
one first; `skip` of those that are left belong to an escape that was read. -/
def stringBody : (skip : Nat) → (read : List Char) → List Char → Option (String × List Char)
  | _, _, [] => none
  | skip + 1, read, _ :: rest => stringBody skip read rest
  | 0, read, '"' :: rest => some (String.ofList read.reverse, rest)
  | 0, read, '\\' :: rest =>
    match escaped? rest with
    | some (c, count) => stringBody count (c :: read) rest
    | none => none
  | 0, read, c :: rest => if c.toNat < 0x20 then none else stringBody 0 (c :: read) rest

def readString : List Char → Option (String × List Char)
  | '"' :: rest => stringBody 0 [] rest
  | _ => none

/-- The value of a run of digits. -/
def digitsValue (ds : List Char) : Nat := ds.foldl (fun n c => n * 10 + (c.toNat - 48)) 0

/-- The exponent of a number, if one follows. -/
def readExponent : List Char → Option (Option Int × List Char)
  | c :: rest =>
    if c = 'e' ∨ c = 'E' then
      let (negative, rest') := match rest with
        | '-' :: more => (true, more)
        | '+' :: more => (false, more)
        | more => (false, more)
      let digits := rest'.takeWhile Char.isDigit
      if digits = [] then some (none, c :: rest)
      else
        let size : Int := digitsValue digits
        some (some (if negative then -size else size), rest'.dropWhile Char.isDigit)
    else some (none, c :: rest)
  | [] => some (none, [])

/-- A number. Leading zeros end it, so that what follows them is refused. -/
def readNumber (s : List Char) : Option (Scalar × List Char) := do
  let (negative, s) := match s with
    | '-' :: rest => (true, rest)
    | rest => (false, rest)
  let whole := match s with
    | '0' :: _ => ['0']
    | _ => s.takeWhile Char.isDigit
  if whole = [] then none
  let rest := s.drop whole.length
  let (fraction, rest) := match rest with
    | '.' :: more =>
      if more.takeWhile Char.isDigit = [] then ([], rest)
      else (more.takeWhile Char.isDigit, more.dropWhile Char.isDigit)
    | _ => ([], rest)
  let (exponent, rest) ← readExponent rest
  if fraction = [] ∧ exponent.isNone then
    if integerReach < whole.length then none
    let size : Int := digitsValue whole
    some (.int (if negative then -size else size), rest)
  else
    let power := exponent.getD 0 - (fraction.length : Int)
    some (.float (.ofDecimal negative (digitsValue (whole ++ fraction)) power), rest)

/-- What follows a word in a text that begins with it. -/
def readWord (word : String) (s : List Char) : Option (List Char) :=
  if word.toList.isPrefixOf s then some (s.drop word.length) else none

def readScalar (s : List Char) : Option (Scalar × List Char) :=
  match s with
  | '"' :: _ => (readString s).map fun (text, rest) => (.text text, rest)
  | 'n' :: _ => (readWord "null" s).map fun rest => (.null, rest)
  | 't' :: _ => (readWord "true" s).map fun rest => (.bool true, rest)
  | 'f' :: _ => (readWord "false" s).map fun rest => (.bool false, rest)
  | _ => readNumber s

mutual
/-- A value that begins at the first character. The fuel bounds the depth of nesting and the number
of parts together; the length of the text is enough of it. -/
def readValue : (fuel : Nat) → List Char → Option (Value × List Char)
  | 0, _ => none
  | fuel + 1, '[' :: rest =>
    match skipBlanks rest with
    | ']' :: rest' => some (.list [], rest')
    | s => readItems fuel [] s
  | fuel + 1, '\x7b' :: rest =>
    match skipBlanks rest with
    | '\x7d' :: rest' => some (.map [], rest')
    | s => readEntries fuel [] s
  | _ + 1, s => (readScalar s).map fun (scalar, rest) => (.scalar scalar, rest)
/-- The items of a list from the first character of an item to the closing bracket. -/
def readItems : (fuel : Nat) → (read : List Value) → List Char → Option (Value × List Char)
  | 0, _, _ => none
  | fuel + 1, read, s => do
    let (v, rest) ← readValue fuel s
    match skipBlanks rest with
    | ',' :: rest' => readItems fuel (v :: read) (skipBlanks rest')
    | ']' :: rest' => some (.list (v :: read).reverse, rest')
    | _ => none
/-- The entries of a mapping from the first character of a key to the closing bracket. -/
def readEntries : (fuel : Nat) → (read : List (Scalar × Value)) → List Char → Option (Value × List Char)
  | 0, _, _ => none
  | fuel + 1, read, s => do
    let (key, rest) ← readString s
    match skipBlanks rest with
    | ':' :: rest' =>
      let (v, rest) ← readValue fuel (skipBlanks rest')
      let read := Scalar.putIn read (.text key) v
      match skipBlanks rest with
      | ',' :: rest' => readEntries fuel read (skipBlanks rest')
      | '\x7d' :: rest' => some (.map read, rest')
      | _ => none
    | _ => none
end

/-- Read a whole text as one value. -/
def parse? (text : String) : Option Value := do
  let s := skipBlanks text.toList
  let (v, rest) ← readValue (s.length + 1) s
  if skipBlanks rest = [] then some v else none

end ClientTypes.Json
