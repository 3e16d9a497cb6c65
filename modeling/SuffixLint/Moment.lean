import SuffixLint.Decimal.Digits
/-!
# Moments

A moment in time, counted from the start of the year 1970 in universal time, and its text as a date
of the calendar with a time of day.
-/

namespace SuffixLint

/-- A moment: the seconds since the start of 1970, and the nanoseconds on top of them. -/
structure Moment where
  seconds : Nat
  nanoseconds : Nat
  deriving DecidableEq, Repr

namespace Moment

/-- A day of the calendar. -/
structure Day where
  year : Nat
  month : Nat
  day : Nat
  deriving DecidableEq, Repr

/-- The day that lies a number of days after the start of 1970. The calendar repeats every 400
years, which are 146097 days. Years are counted from March, so that the leap day is the last of its
year. -/
def Day.ofCount (days : Nat) : Day :=
  let shifted := days + 719468
  let era := shifted / 146097
  let dayOfEra := shifted % 146097
  let yearOfEra := (dayOfEra - dayOfEra / 1460 + dayOfEra / 36524 - dayOfEra / 146096) / 365
  let dayOfYear := dayOfEra - (365 * yearOfEra + yearOfEra / 4 - yearOfEra / 100)
  let fromMarch := (5 * dayOfYear + 2) / 153
  let month := if fromMarch < 10 then fromMarch + 3 else fromMarch - 9
  { year := yearOfEra + era * 400 + (if month ≤ 2 then 1 else 0)
    month := month
    day := dayOfYear - (153 * fromMarch + 2) / 5 + 1 }

/-- The decimal digits of a number, with zeros before them up to a width. -/
def padded (width n : Nat) : List Char :=
  let ds := Decimal.digits n
  List.replicate (width - ds.length) '0' ++ ds

/-- The fraction of a second in thousandths, millionths or billionths, whichever is the first that
says it exactly; nothing for a whole second. -/
def fraction (nanoseconds : Nat) : List Char :=
  if nanoseconds = 0 then []
  else if nanoseconds % 1000000 = 0 then '.' :: padded 3 (nanoseconds / 1000000)
  else if nanoseconds % 1000 = 0 then '.' :: padded 6 (nanoseconds / 1000)
  else '.' :: padded 9 nanoseconds

/-- The text of a moment: the day, the time of day, and no distance to universal time. -/
def text (m : Moment) : String :=
  let d := Day.ofCount (m.seconds / 86400)
  let ofDay := m.seconds % 86400
  String.ofList (padded 4 d.year ++ '-' :: padded 2 d.month ++ '-' :: padded 2 d.day
    ++ 'T' :: padded 2 (ofDay / 3600) ++ ':' :: padded 2 (ofDay / 60 % 60)
    ++ ':' :: padded 2 (ofDay % 60) ++ fraction m.nanoseconds ++ "+00:00".toList)

/-- The start of the count. -/
example : text ⟨0, 0⟩ = "1970-01-01T00:00:00+00:00" := by cbv

/-- A leap day in a year that four hundred divides, with a fraction in thousandths. -/
example : text ⟨951782400 + 86399, 120000000⟩ = "2000-02-29T23:59:59.120+00:00" := by cbv

end Moment

end SuffixLint
