import ClientTypes.Decimal.Binary
import ClientTypes.Decimal.Reach
import ClientTypes.Text.Hexadecimal
import ClientTypes.Text.Piece
import ClientTypes.Yaml.Fault

/-!
Plain scalars that are numbers.

Integers are written in base two, eight, ten, sixteen or sixty, floating point numbers with a point,
and both may hold underscores, which mean nothing. A form may be met by a text that has no value, such as
an integer without digits. In what follows an option tells whether a text has the form of a number, and
the result inside it whether there is such a number.
-/

namespace ClientTypes.Yaml

open Decimal

/-- The text without its underscores. -/
def dropUnderscores (s : List Char) : List Char := s.filter (· != '_')

/-- A digit below a base, up to base sixteen, or an underscore. -/
def isDigitBelow (base : Nat) (c : Char) : Bool :=
  c == '_' || (Text.hexValue? c).any fun d => d < base

/-- The value of digits in a base. -/
def valueIn (base : Nat) (digits : List Char) : Nat :=
  digits.foldl (fun n c => n * base + (Text.hexValue? c).getD 0) 0

/-- The text without its sign, and whether the sign is a minus. -/
def splitSign : List Char → Bool × List Char
  | '-' :: rest => (true, rest)
  | '+' :: rest => (false, rest)
  | s => (false, s)

/-- A digit, then digits and underscores. -/
def isDigitRun : List Char → Bool
  | [] => false
  | c :: rest => c.isDigit && rest.all (isDigitBelow 10)

/-- A digit of base sixty: one decimal digit, or two with the first below six. -/
def isSixtieth : List Char → Bool
  | [c] => c.isDigit
  | [a, b] => a.isDigit && a.toNat < 54 && b.isDigit
  | _ => false

/-- The value of digits of base sixty. -/
def sixtiethsValue (parts : List (List Char)) : Nat :=
  parts.foldl (fun n part => n * 60 + valueIn 10 (dropUnderscores part)) 0

/-- The value of digits in a base, unless there are only underscores. -/
def digitsIn (base : Nat) (digits : List Char) : Except ScalarFault Nat :=
  match dropUnderscores digits with
  | [] => .error .impossible
  | ds => .ok (valueIn base ds)

/-- The digits of an integer are few enough. -/
def isWithinReach (digits : List Char) : Bool := (dropUnderscores digits).length ≤ integerReach

def integerSize (s : List Char) : Option (Except ScalarFault Nat) :=
  match s with
  | ['0'] => some (.ok 0)
  | '0' :: 'b' :: digits =>
    if !digits.isEmpty && digits.all (isDigitBelow 2) then some (digitsIn 2 digits) else none
  | '0' :: 'x' :: digits =>
    if !digits.isEmpty && digits.all (isDigitBelow 16) then some (digitsIn 16 digits) else none
  | '0' :: digits => if digits.all (isDigitBelow 8) then some (digitsIn 8 ('0' :: digits)) else none
  | _ =>
    match Text.pieces ':' s with
    | whole :: parts =>
      if isDigitRun whole && parts.all isSixtieth then
        some (if isWithinReach whole then .ok (sixtiethsValue (whole :: parts))
          else .error .impossible)
      else none
    | [] => none

def integer? (s : List Char) : Option (Except ScalarFault Int) :=
  let (negative, size) := splitSign s
  (integerSize size).map fun n => n.map fun n => if negative then -(n : Int) else n

/-- The exponent of a floating point number: a letter, a sign that may not be left out, digits. -/
def exponentOf? : List Char → Option Int
  | [] => some 0
  | e :: sign :: digits =>
    if (e == 'e' || e == 'E') && !digits.isEmpty && digits.all Char.isDigit then
      if sign == '+' then some (valueIn 10 digits)
      else if sign == '-' then some (-(valueIn 10 digits : Int))
      else none
    else none
  | _ => none

/-- The number that digits stand for, with `count` of them behind the point. -/
def ofDigits (digits : List Char) (count : Nat) : Binary64 :=
  .ofDecimal false (valueIn 10 (dropUnderscores digits)) (-(count : Int))

/-- Sum numbers in base sixty, the last digit first. Every product and every sum is rounded by itself,
and a power of sixty that no floating point number is near to is too large. -/
def sumSixtieths (sum : Binary64) (power : Nat) : List Binary64 → Except ScalarFault Binary64
  | [] => .ok sum
  | digit :: rest =>
    let weight := Binary64.ofRatio power 1
    if weight.isSpecial then .error .tooLarge
    else sumSixtieths (sum.plus (digit.times weight)) (power * 60) rest

/-- A floating point number in base sixty, with the digits behind its point. -/
def sixtieths (parts : List (List Char)) (fraction : List Char) : Except ScalarFault Binary64 :=
  match parts.reverse with
  | [] => .ok ⟨0⟩
  | last :: rest =>
    sumSixtieths ⟨0⟩ 1 (ofDigits (last ++ fraction) fraction.length :: rest.map (ofDigits · 0))

/-- A floating point number from the texts on both sides of its point. Without digits in front of the
point there is no sign, and a digit follows. -/
def pointed? (negative signed : Bool) (whole behind : List Char) :
    Option (Except ScalarFault Binary64) :=
  let fraction := behind.takeWhile (isDigitBelow 10)
  let exponent := exponentOf? (behind.drop fraction.length)
  let digits := dropUnderscores fraction
  match Text.pieces ':' whole with
  | [[]] =>
    if !signed && isDigitRun fraction then
      exponent.map fun e => .ok (.ofDecimal false (valueIn 10 digits) (e - digits.length))
    else none
  | [part] =>
    if isDigitRun part then
      exponent.map fun e => .ok <|
        .ofDecimal negative (valueIn 10 (dropUnderscores part ++ digits)) (e - digits.length)
    else none
  | parts =>
    if (parts.head?.map isDigitRun).getD false && (parts.drop 1).all isSixtieth &&
        fraction.length == behind.length then
      some ((sixtieths parts digits).map fun x => if negative then x.negated else x)
    else none

/-- The words for infinity, after the point. -/
def infinityWords : List String := ["inf", "Inf", "INF"]

/-- The words for what is no number, after the point. -/
def notNumberWords : List String := ["nan", "NaN", "NAN"]

def float? (s : List Char) : Option (Except ScalarFault Binary64) :=
  let (negative, size) := splitSign s
  let signed := size.length != s.length
  match size.dropWhile (· != '.') with
  | '.' :: behind =>
    let whole := size.takeWhile (· != '.')
    let word := String.ofList behind
    if whole.isEmpty && infinityWords.contains word then
      some (.ok ⟨if negative then 0xfff0000000000000 else 0x7ff0000000000000⟩)
    else if whole.isEmpty && !signed && notNumberWords.contains word then
      some (.ok ⟨0x7ff8000000000000⟩)
    else pointed? negative signed whole behind
  | _ => none

end ClientTypes.Yaml
