/-!
# Instants

An instant is a number of nanoseconds since the beginning of 1970 in universal time. Its text is the date and the time
of day in the Gregorian calendar.
-/

namespace ResponseShapes

/-- A day of the Gregorian calendar. -/
structure CalendarDay where
  year : Int
  month : Nat
  day : Nat
  deriving DecidableEq, Repr

namespace CalendarDay

/-- The days from the beginning of March in the year 0 to the beginning of 1970. -/
def epochOffset : Int := 719468

/-- The days of 400 years. -/
def daysPerEra : Int := 146097

/-- The day that lies the given number of days behind the beginning of 1970. Years are counted from March on, so that
    a leap day is the last day of its year. -/
def ofDays (days : Int) : CalendarDay :=
  let shifted := days + epochOffset
  let era := shifted.fdiv daysPerEra
  let inEra := (shifted.fmod daysPerEra).toNat
  let yearOfEra := (inEra - inEra / 1460 + inEra / 36524 - inEra / 146096) / 365
  let inYear := inEra - (365 * yearOfEra + yearOfEra / 4 - yearOfEra / 100)
  let marchMonth := (5 * inYear + 2) / 153
  let day := inYear - (153 * marchMonth + 2) / 5 + 1
  let month := if marchMonth < 10 then marchMonth + 3 else marchMonth - 9
  { year := era * 400 + yearOfEra + (if month ≤ 2 then 1 else 0), month, day }

end CalendarDay

/-- A number in at least `width` decimal digits. -/
def padded (width n : Nat) : String :=
  let digits := Nat.toDigits 10 n
  String.ofList (List.replicate (width - digits.length) '0' ++ digits)

/-- An instant as a date and a time of day to the microsecond, which is left out when it is zero. -/
def instantText (time : Int) : String :=
  let seconds := time.fdiv 1000000000
  let micros := (time.fmod 1000000000).toNat / 1000
  let date := CalendarDay.ofDays (seconds.fdiv 86400)
  let second := (seconds.fmod 86400).toNat
  padded 4 date.year.toNat ++ "-" ++ padded 2 date.month ++ "-" ++ padded 2 date.day ++ "T" ++
    padded 2 (second / 3600) ++ ":" ++ padded 2 (second / 60 % 60) ++ ":" ++ padded 2 (second % 60) ++
    (if micros = 0 then "" else "." ++ padded 6 micros) ++ "Z"

end ResponseShapes
