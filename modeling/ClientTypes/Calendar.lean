/-!
Days of the calendar and times of day.

A moment is a day with a time of day. When its clock says how far it is ahead of universal time, the
moment is a point in time, and moments of different clocks may be the same point.
-/

namespace ClientTypes

structure Date where
  year : Nat
  month : Nat
  day : Nat
deriving DecidableEq, Repr

structure Clock where
  hour : Nat
  minute : Nat
  second : Nat
  microsecond : Nat := 0
  /-- How many minutes the clock is ahead of universal time, if that is known. -/
  ahead : Option Int := none
deriving DecidableEq, Repr

def daysIn (year month : Nat) : Nat :=
  if month = 2 then
    if year % 4 = 0 ∧ (year % 100 ≠ 0 ∨ year % 400 = 0) then 29 else 28
  else if month = 4 ∨ month = 6 ∨ month = 9 ∨ month = 11 then 30
  else 31

namespace Date

/-- Year, month and day are in the calendar. -/
def isInCalendar (d : Date) : Bool :=
  1 ≤ d.year && 1 ≤ d.month && d.month ≤ 12 && 1 ≤ d.day && d.day ≤ daysIn d.year d.month

/-- The number of days of a year in front of its month of the given place. -/
def daysBefore (year : Nat) : (month : Nat) → Nat
  | 0 => 0
  | month + 1 => daysBefore year month + if month = 0 then 0 else daysIn year month

/-- The number of days from the first day of the first year on. Every fourth year has one day more, but
of the years that end a century only every fourth one has it. -/
def number (d : Date) : Nat :=
  let before := d.year - 1
  before * 365 + before / 4 - before / 100 + before / 400 + daysBefore d.year d.month + (d.day - 1)

end Date

namespace Clock

/-- The time is on the clock, and its zone is less than a day away. -/
def isOnClock (c : Clock) : Bool :=
  c.hour < 24 && c.minute < 60 && c.second < 60 &&
    match c.ahead with
    | none => true
    | some ahead => ahead.natAbs < 1440

/-- The point in time of a moment in microseconds from the first day on, if its zone is known. -/
def instant? (c : Clock) (d : Date) : Option Int :=
  c.ahead.map fun ahead =>
    (((d.number * 1440 + c.hour * 60 + c.minute : Int) - ahead) * 60 + c.second) * 1000000 +
      c.microsecond

end Clock

end ClientTypes
