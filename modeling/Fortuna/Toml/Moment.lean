import Fortuna.Decimal
import Fortuna.Toml.Scan

/-!
# Dates and times of TOML

Dates are days of the Gregorian calendar; times have seconds, which may be the
leap second 60, and perhaps a fraction; a date with a time may have an offset.
-/

namespace Fortuna

namespace Toml

def isLeapYear (year : Nat) : Bool :=
  year % 4 == 0 && (year % 100 != 0 || year % 400 == 0)

/-- The days of a month, the months counted from 1. -/
def daysIn (year month : Nat) : Nat :=
  if month = 2 then (if isLeapYear year then 29 else 28)
  else if month ∈ [4, 6, 9, 11] then 30
  else 31

namespace Scan

/-- The number that `n` digits spell, which must lie in a range. -/
def numberIn (n low high : Nat) : Scan Nat := do
  let ds ← times Char.isDigit n
  let value := Decimal.value 10 (ds.map Decimal.digitValue)
  if low ≤ value ∧ value ≤ high then return value else failure

/-- A day, as in `1979-05-27`. -/
def date : Scan Unit := do
  let year ← numberIn 4 0 9999
  exactly '-'
  let month ← numberIn 2 1 12
  exactly '-'
  let _ ← numberIn 2 1 (daysIn year month)

/-- The time of a day, as in `07:32:00.5`. -/
def clock : Scan Unit := do
  let _ ← numberIn 2 0 23
  exactly ':'
  let _ ← numberIn 2 0 59
  exactly ':'
  let _ ← numberIn 2 0 60
  let fraction := do
    exactly '.'
    let _ ← span1 Char.isDigit
  let _ ← optional fraction

/-- The offset from universal time, as in `Z` or `-07:00`. -/
def offset : Scan Unit := do
  let zulu := do let _ ← satisfying fun c => c == 'Z' || c == 'z'
  let shift := do
    let _ ← satisfying fun c => c == '+' || c == '-'
    let _ ← numberIn 2 0 23
    exactly ':'
    let _ ← numberIn 2 0 59
  zulu <|> shift

/-- The time of a day with an offset or without. -/
def placedClock : Scan Unit := do
  clock
  let _ ← optional offset

/-- A day and a time of it, with the letter between them. -/
def dateClock : Scan Unit := do
  date
  let _ ← satisfying fun c => c == 'T' || c == 't'
  placedClock

end Scan

def isDate (cs : List Char) : Bool :=
  (Scan.date.whole cs).isSome

/-- Whether a text is the time of a day with an offset or without. -/
def isPlacedClock (cs : List Char) : Bool :=
  (Scan.placedClock.whole cs).isSome

/-- Whether a text without blanks is a date, a time, or both. -/
def isMoment (cs : List Char) : Bool :=
  ((Scan.date <|> Scan.clock).whole cs).isSome || (Scan.dateClock.whole cs).isSome

end Toml

end Fortuna
