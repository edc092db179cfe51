/-!
# Points in time

A point in time is a number of seconds since the start of 1970, in universal
time.

## Main definitions

* `Clock.civil`: year, month and day of a number of days.
* `Clock.iso`: date and time of a number of seconds, with the offset of the zone.
-/

namespace Delimited.Clock

/-- Year, month and day of the day `days` after the first of 1970. The
count starts anew every 400 years, which begin on the first of March. -/
def civil (days : Nat) : Nat × Nat × Nat :=
  let z := days + 719468
  let era := z / 146097
  let dayOfEra := z % 146097
  let yearOfEra := (dayOfEra - dayOfEra / 1460 + dayOfEra / 36524 - dayOfEra / 146096) / 365
  let dayOfYear := dayOfEra - (365 * yearOfEra + yearOfEra / 4 - yearOfEra / 100)
  let shifted := (5 * dayOfYear + 2) / 153
  let day := dayOfYear - (153 * shifted + 2) / 5 + 1
  let month := if shifted < 10 then shifted + 3 else shifted - 9
  let year := yearOfEra + era * 400
  (if month ≤ 2 then year + 1 else year, month, day)

/-- A number in decimal, filled with zeros to a width. -/
def padded (width n : Nat) : String :=
  let digits := toString n
  String.ofList (List.replicate (width - digits.length) '0') ++ digits

/-- Hours, minutes and seconds of a number of seconds. -/
def time (seconds : Nat) : String :=
  padded 2 (seconds / 3600 % 24) ++ ":" ++ padded 2 (seconds / 60 % 60) ++ ":" ++
    padded 2 (seconds % 60)

/-- Date and time of a number of seconds. -/
def iso (seconds : Nat) : String :=
  let (year, month, day) := civil (seconds / 86400)
  padded 4 year ++ "-" ++ padded 2 month ++ "-" ++ padded 2 day ++ "T" ++ time seconds ++ "+00:00"

end Delimited.Clock
