import ClientTypes.Text.Blank
import ClientTypes.Text.Digit

/-!
Integers written as text.

Blanks may stand around the number, a sign in front of it, and single underscores between its
digits. The digits may be of any script. Of the blanks of ASCII only the space, the tab and the line
and form breaks count here; the information separators do not.
-/

namespace ClientTypes.Text

def isBlankOfNumber (c : Char) : Bool :=
  c.toNat == 0x20 || (0x9 ≤ c.toNat && c.toNat ≤ 0xd) || (0x7f ≤ c.toNat && isBlank c)

/-- Read digits after a digit or an underscore. The second argument says that an underscore was
just read, so that a digit has to follow. -/
def digitsFrom (value : Nat) (afterUnderscore : Bool) : List Char → Option Nat
  | [] => if afterUnderscore then none else some value
  | c :: rest =>
    if c = '_' then if afterUnderscore then none else digitsFrom value true rest
    else match digitValue? c with
      | some d => digitsFrom (value * 10 + d) false rest
      | none => none

/-- Read a number without a sign. It begins with a digit. -/
def readDigits : List Char → Option Nat
  | [] => none
  | c :: rest => (digitValue? c).bind fun d => digitsFrom d false rest

def readInteger (s : List Char) : Option Int :=
  match trimBoth isBlankOfNumber s with
  | '-' :: rest => (readDigits rest).map fun n => -(n : Int)
  | '+' :: rest => (readDigits rest).map fun n => (n : Int)
  | rest => (readDigits rest).map fun n => (n : Int)

/-- The item at a place of a list. A negative place counts from the end. -/
def itemAt? {α : Type} (items : List α) (place : Int) : Option α :=
  if 0 ≤ place then items[place.toNat]?
  else if (-place).toNat ≤ items.length then items[items.length - (-place).toNat]?
  else none

end ClientTypes.Text
