import ClientTypes.Value
import ClientTypes.Yaml.Fault

/-!
Plain scalars that are days or moments.

A day is written as `2024-01-31`. A moment has a time of day behind it, after a letter or blanks, and
may say how far its clock is ahead of universal time. The form is decided by the number of digits
alone, so a text may have the form of a day that is not in the calendar.
-/

namespace ClientTypes.Yaml

/-- The value of decimal digits. -/
def decimalValue (digits : List Char) : Nat := digits.foldl (fun n c => n * 10 + (c.toNat - 48)) 0

/-- The digits in front of a text, whose number has to be in the given range, and what follows. -/
def digitGroup? (least most : Nat) (s : List Char) : Option (Nat × List Char) :=
  let digits := s.takeWhile Char.isDigit
  if least ≤ digits.length ∧ digits.length ≤ most then
    some (decimalValue digits, s.drop digits.length)
  else none

/-- What follows a mark in a text that begins with it. -/
def afterMark? (mark : Char) : List Char → Option (List Char)
  | c :: rest => if c = mark then some rest else none
  | [] => none

/-- Year, month and day with hyphens; the last two have from `least` to two digits. -/
def dayForm? (least : Nat) (s : List Char) : Option ((Nat × Nat × Nat) × List Char) := do
  let (year, s) ← digitGroup? 4 4 s
  let (month, s) ← digitGroup? least 2 (← afterMark? '-' s)
  let (day, s) ← digitGroup? least 2 (← afterMark? '-' s)
  return ((year, month, day), s)

/-- What separates the time of day from the day: one letter, or blanks. -/
def afterSeparator? : List Char → Option (List Char)
  | 'T' :: rest => some rest
  | 't' :: rest => some rest
  | s => if s.takeWhile isBlank = [] then none else some (s.dropWhile isBlank)
where
  isBlank (c : Char) : Bool := c == ' ' || c == '\t'

/-- The fraction of a second in microseconds. Digits beyond six are cut. -/
def microseconds (digits : List Char) : Nat :=
  decimalValue ((digits ++ List.replicate 6 '0').take 6)

/-- The zone at the end of a moment: nothing, a letter for universal time, or hours and perhaps minutes
ahead of it or behind it. -/
def zone? (s : List Char) : Option (Option Int) :=
  match s, s.dropWhile afterSeparator?.isBlank with
  | [], _ => some none
  | _, ['Z'] => some (some 0)
  | _, sign :: rest => do
    if sign ≠ '+' ∧ sign ≠ '-' then none
    let (hours, rest) ← digitGroup? 1 2 rest
    let minutes ← match rest with
      | [] => some 0
      | _ => do
        let (minutes, []) ← digitGroup? 2 2 (← afterMark? ':' rest) | none
        some minutes
    let size : Int := hours * 60 + minutes
    some (some (if sign = '-' then -size else size))
  | _, [] => none

/-- The time of day at the end of a moment. -/
def clockForm? (s : List Char) : Option Clock := do
  let (hour, s) ← digitGroup? 1 2 s
  let (minute, s) ← digitGroup? 2 2 (← afterMark? ':' s)
  let (second, s) ← digitGroup? 2 2 (← afterMark? ':' s)
  let (microsecond, s) := match s with
    | '.' :: rest => (microseconds (rest.takeWhile Char.isDigit), rest.dropWhile Char.isDigit)
    | _ => (0, s)
  return { hour, minute, second, microsecond, ahead := ← zone? s }

/-- A day or a moment, if the text has the form of one. -/
def calendar? (s : List Char) : Option (Except ScalarFault Scalar) :=
  match dayForm? 2 s with
  | some ((year, month, day), []) =>
    let day : Date := ⟨year, month, day⟩
    some (if day.isInCalendar then .ok (.date day) else .error .impossible)
  | _ => do
    let ((year, month, day), rest) ← dayForm? 1 s
    let clock ← clockForm? (← afterSeparator? rest)
    let day : Date := ⟨year, month, day⟩
    some (if day.isInCalendar && clock.isOnClock then .ok (.moment day clock)
      else .error .impossible)

end ClientTypes.Yaml
