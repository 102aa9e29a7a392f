/-!
# Dates and times of day

Dates of the proleptic Gregorian calendar, times of day to the nanosecond, and both together. Only
dates that exist and times that a clock can show are values of these types. A clock can show a
leap second behind any minute: such a time has second 59 and a billion extra nanoseconds, which is
where it belongs in the order.
-/

namespace ExtendedJson

namespace Calendar

def isLeapYear (year : Int) : Bool :=
  year % 4 == 0 && (year % 100 != 0 || year % 400 == 0)

/-- The length of a month; zero for a number that is no month. -/
def daysInMonth (year : Int) (month : Nat) : Nat :=
  match month with
  | 1 | 3 | 5 | 7 | 8 | 10 | 12 => 31
  | 4 | 6 | 9 | 11 => 30
  | 2 => if isLeapYear year then 29 else 28
  | _ => 0

/-- The first year that dates reach. -/
def firstYear : Int := -262143

/-- The last year that dates reach. -/
def lastYear : Int := 262142

/-- The length of a second. -/
def nanosPerSecond : Nat := 1000000000

end Calendar

/-- A day of the calendar. -/
structure Date where
  year : Int
  month : Nat
  day : Nat
  year_mem : Calendar.firstYear ≤ year ∧ year ≤ Calendar.lastYear
  day_mem : 1 ≤ day ∧ day ≤ Calendar.daysInMonth year month
deriving DecidableEq

/-- A time of day. Nanoseconds from a billion on stand for the leap second behind second 59. -/
structure TimeOfDay where
  hour : Nat
  minute : Nat
  second : Nat
  nano : Nat
  clock : hour < 24 ∧ minute < 60 ∧ second < 60
  nano_lt : nano < Calendar.nanosPerSecond ∨ second = 59 ∧ nano < 2 * Calendar.nanosPerSecond
deriving DecidableEq

/-- A day and a time on it, without a time zone. -/
structure Timestamp where
  date : Date
  time : TimeOfDay
deriving DecidableEq

namespace Date

/-- The day of that year, month and day, if there is one. -/
def ofParts? (year : Int) (month day : Nat) : Option Date :=
  if h : Calendar.firstYear ≤ year ∧ year ≤ Calendar.lastYear then
    if h' : 1 ≤ day ∧ day ≤ Calendar.daysInMonth year month then some ⟨year, month, day, h, h'⟩
    else none
  else none

instance : Ord Date where
  compare :=
    compareLex (compareOn Date.year) (compareLex (compareOn Date.month) (compareOn Date.day))

end Date

namespace TimeOfDay

/-- The time of that hour, minute, second and nanosecond, if a clock can show it. -/
def ofParts? (hour minute second nano : Nat) : Option TimeOfDay :=
  if h : hour < 24 ∧ minute < 60 ∧ second < 60 then
    if h' : nano < Calendar.nanosPerSecond ∨ second = 59 ∧ nano < 2 * Calendar.nanosPerSecond then
      some ⟨hour, minute, second, nano, h, h'⟩
    else none
  else none

instance : Ord TimeOfDay where
  compare :=
    compareLex (compareOn TimeOfDay.hour) (compareLex (compareOn TimeOfDay.minute)
      (compareLex (compareOn TimeOfDay.second) (compareOn TimeOfDay.nano)))

end TimeOfDay

instance : Ord Timestamp where
  compare := compareLex (compareOn Timestamp.date) (compareOn Timestamp.time)

end ExtendedJson
