/-!
# Days and times of day

Which numbers are a day of a year and a time of a day.
-/

namespace StoreLint.Calendar

/-- The number of days of a month, from one to twelve. -/
def daysIn (year month : Nat) : Nat :=
  if month = 2 then
    if year % 4 = 0 ∧ (year % 100 ≠ 0 ∨ year % 400 = 0) then 29 else 28
  else if month = 4 ∨ month = 6 ∨ month = 9 ∨ month = 11 then 30
  else 31

/-- Is there such a day? -/
def isDate (year month day : Nat) : Bool :=
  1 ≤ month && month ≤ 12 && 1 ≤ day && day ≤ daysIn year month

/-- Is there such a time of day? -/
def isTime (hour minute second : Nat) : Bool :=
  hour < 24 && minute < 60 && second < 60

/-- Can clocks differ by so much? -/
def isOffset (hours minutes : Nat) : Bool :=
  hours ≤ 24 && minutes ≤ 60

/-- The number that decimal digits stand for. -/
def decimalValue (cs : List Char) : Nat :=
  cs.foldl (fun n c => n * 10 + (c.toNat - 48)) 0

end StoreLint.Calendar
