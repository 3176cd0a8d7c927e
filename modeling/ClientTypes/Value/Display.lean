import ClientTypes.Value
import ClientTypes.Decimal.Reach
import ClientTypes.Text.Printable

/-!
The text of a value.

On its own a text stands for itself. Inside a list or a mapping it is quoted, so that the parts stay
apart: by single quotes, or by double quotes when the text holds a single quote and no double one.

Not every value has a text: an integer with too many digits is not written, and neither is a collection
that it is in.
-/

namespace ClientTypes

open Decimal

def hexDigit (n : Nat) : Char := if n < 10 then Char.ofNat (48 + n) else Char.ofNat (87 + n)

/-- The last `width` hexadecimal digits of a number. -/
def hexDigits : (width n : Nat) → List Char
  | 0, _ => []
  | width + 1, n => hexDigits width (n / 16) ++ [hexDigit (n % 16)]

/-- A character of a quoted text. The quote and the backslash are escaped, the usual blanks have
their letters, and a character without a printed form is written by its number. -/
def quotedChar (quote c : Char) : List Char :=
  if c = quote ∨ c = '\\' then ['\\', c]
  else if c = '\t' then ['\\', 't']
  else if c = '\n' then ['\\', 'n']
  else if c = '\r' then ['\\', 'r']
  else if Text.isPrintable c then [c]
  else if c.toNat < 0x100 then '\\' :: 'x' :: hexDigits 2 c.toNat
  else if c.toNat < 0x10000 then '\\' :: 'u' :: hexDigits 4 c.toNat
  else '\\' :: 'U' :: hexDigits 8 c.toNat

def quoted (s : String) : String :=
  let cs := s.toList
  let quote := if cs.contains '\'' && !cs.contains '"' then '"' else '\''
  String.ofList (quote :: cs.flatMap (quotedChar quote) ++ [quote])

/-- A day as year, month and day with hyphens. -/
def Date.display (d : Date) : String :=
  String.ofList (paddedTo 4 d.year ++ '-' :: paddedTo 2 d.month ++ '-' :: paddedTo 2 d.day)

/-- A distance from universal time in hours and minutes, with its sign. -/
def zoneText (ahead : Int) : List Char :=
  (if ahead < 0 then '-' else '+') :: paddedTo 2 (ahead.natAbs / 60) ++
    ':' :: paddedTo 2 (ahead.natAbs % 60)

/-- A time of day as hours, minutes and seconds with colons, and what is known beyond them. The zone
of universal time is written by `universal`. -/
def Clock.textWith (universal : List Char) (c : Clock) : List Char :=
  paddedTo 2 c.hour ++ ':' :: paddedTo 2 c.minute ++ ':' :: paddedTo 2 c.second ++
    (if c.microsecond = 0 then [] else '.' :: paddedTo 6 c.microsecond) ++
    match c.ahead with
    | none => []
    | some ahead => if ahead = 0 then universal else zoneText ahead

/-- A distance from universal time as a zone inside a list or a mapping. -/
def zoneLiteral (ahead : Int) : String :=
  if ahead = 0 then "datetime.timezone.utc"
  else
    "datetime.timezone(datetime.timedelta(" ++
      (if ahead < 0 then "days=-1, seconds=" ++ toString ((ahead + 1440) * 60)
      else "seconds=" ++ toString (ahead * 60)) ++ "))"

/-- The parts of a time of day inside a list or a mapping. Zeros at the end are left out. -/
def Clock.literalParts (c : Clock) : List String :=
  toString c.hour :: toString c.minute ::
    (if c.second = 0 ∧ c.microsecond = 0 then []
    else if c.microsecond = 0 then [toString c.second]
    else [toString c.second, toString c.microsecond]) ++
    (c.ahead.map fun ahead => "tzinfo=" ++ zoneLiteral ahead).toList

/-- The text of a scalar inside a list or a mapping. -/
def Scalar.literal? : Scalar → Option String
  | .null => some "None"
  | .bool true => some "True"
  | .bool false => some "False"
  | .int n => if isWritable n then some (toString n) else none
  | .float x => some (textLayout.render x)
  | .text s => some (quoted s)
  | .date d => some ("datetime.date(" ++ toString d.year ++ ", " ++ toString d.month ++ ", " ++
      toString d.day ++ ")")
  | .moment d c => some ("datetime.datetime(" ++ ", ".intercalate
      (toString d.year :: toString d.month :: toString d.day :: c.literalParts) ++ ")")

def Scalar.display? : Scalar → Option String
  | .text s => some s
  | .date d => some d.display
  | .moment d c =>
    some (d.display ++ " " ++ String.ofList (c.textWith ['+', '0', '0', ':', '0', '0']))
  | s => s.literal?

/-- What stands for a collection inside itself. -/
def Value.placeholder (collection : Value) : String :=
  match collection.opened with
  | .map _ => "\x7b...\x7d"
  | _ => "[...]"

mutual
/-- The text of a value inside a list or a mapping. Where a collection stands inside itself, points
stand for it; `around` holds the numbers of the collections around the value. -/
def Value.literalInside? (around : List Nat) : Value → Option String
  | .scalar s => s.literal?
  | .list items => (itemLiterals? around items).map fun texts => "[" ++ ", ".intercalate texts ++ "]"
  | .map entries =>
    (entryLiterals? around entries).map fun texts => "\x7b" ++ ", ".intercalate texts ++ "\x7d"
  | .knot number v =>
    if around.contains number then some v.placeholder else v.literalInside? (number :: around)
  | .loop v => v.literalInside? around
  | .beyond => some "..."
def itemLiterals? (around : List Nat) : List Value → Option (List String)
  | [] => some []
  | v :: rest => do
    let first ← v.literalInside? around
    let more ← itemLiterals? around rest
    return first :: more
/-- The texts of the entries of a mapping: key, colon, value. -/
def entryLiterals? (around : List Nat) : List (Scalar × Value) → Option (List String)
  | [] => some []
  | (k, v) :: rest => do
    let key ← k.literal?
    let value ← v.literalInside? around
    let more ← entryLiterals? around rest
    return (key ++ ": " ++ value) :: more
end

def Value.display? : Value → Option String
  | .scalar s => s.display?
  | v => v.literalInside? []

/-- What kind of value it is, in one word. -/
def Value.kindName (v : Value) : String :=
  match v.opened with
  | .null => "NoneType"
  | .bool _ => "bool"
  | .int _ => "int"
  | .float _ => "float"
  | .text _ => "str"
  | .date _ => "date"
  | .scalar (.moment _ _) => "datetime"
  | .list _ => "list"
  | _ => "dict"

end ClientTypes
