import ExtendedJson.Calendar.Basic

/-!
# Writing dates and times

`2024-02-29`, `09:15:00`, `09:15:00.250`, and both joined by a `T`. Years of the common era up to
9999 have four digits; all others carry a sign, so that a reader sees where the year ends. The
fraction of a second is left out when it is zero and otherwise has three, six or nine digits, as
few as are exact. A leap second is second 60.
-/

namespace ExtendedJson

namespace Calendar

/-- A number with zeros in front up to a width. -/
def padded (width n : Nat) : List Char := (Nat.toDigits 10 n).leftpad width '0'

def yearText (year : Int) : List Char :=
  if 0 ≤ year ∧ year ≤ 9999 then padded 4 year.natAbs
  else (if year < 0 then '-' else '+') :: padded 4 year.natAbs

/-- The fraction of a second with its point. -/
def fractionText (nano : Nat) : List Char :=
  if nano = 0 then []
  else if nano % 1000000 = 0 then '.' :: padded 3 (nano / 1000000)
  else if nano % 1000 = 0 then '.' :: padded 6 (nano / 1000)
  else '.' :: padded 9 nano

end Calendar

open Calendar

def Date.text (d : Date) : List Char :=
  yearText d.year ++ '-' :: (padded 2 d.month ++ '-' :: padded 2 d.day)

/-- The second that a clock shows. -/
def TimeOfDay.shownSecond (t : TimeOfDay) : Nat := t.second + t.nano / nanosPerSecond

def TimeOfDay.text (t : TimeOfDay) : List Char :=
  padded 2 t.hour ++ ':' :: (padded 2 t.minute ++ ':' :: (padded 2 t.shownSecond ++
    fractionText (t.nano % nanosPerSecond)))

def Timestamp.text (t : Timestamp) : List Char := t.date.text ++ 'T' :: t.time.text

end ExtendedJson
