import MiningAgent.Decimal

/-!
# Calendar dates

Clock readings as dates and times of day in universal time.
-/

namespace MiningAgent.Calendar

structure Date where
  year : Nat
  month : Nat
  day : Nat
deriving DecidableEq, Repr

/-- The date that many days after the first of January 1970.  Years are counted from
March, so that the leap day is the last of its year, and in eras of 400 years. -/
def dateOfDays (days : Nat) : Date :=
  let shifted := days + 719468
  let era := shifted / 146097
  let dayOfEra := shifted % 146097
  let yearOfEra :=
    (dayOfEra - dayOfEra / 1460 + dayOfEra / 36524 - dayOfEra / 146096) / 365
  let dayOfYear := dayOfEra - (365 * yearOfEra + yearOfEra / 4 - yearOfEra / 100)
  let monthFromMarch := (5 * dayOfYear + 2) / 153
  let day := dayOfYear - (153 * monthFromMarch + 2) / 5 + 1
  let month := if monthFromMarch < 10 then monthFromMarch + 3 else monthFromMarch - 9
  let year := yearOfEra + era * 400
  ⟨if month ≤ 2 then year + 1 else year, month, day⟩

def digits (width number : Nat) : String :=
  String.ofList (Decimal.padded 10 width number)

/-- Nanoseconds since the first of January 1970 as a date and a time of day in
microseconds. -/
def timestamp (nanoseconds : Nat) : String :=
  let micros := nanoseconds / 1000
  let seconds := micros / 1000000
  let date := dateOfDays (seconds / 86400)
  let second := seconds % 86400
  digits 4 date.year ++ "-" ++ digits 2 date.month ++ "-" ++ digits 2 date.day ++ "T" ++
    digits 2 (second / 3600) ++ ":" ++ digits 2 (second / 60 % 60) ++ ":" ++
    digits 2 (second % 60) ++ "." ++ digits 6 (micros % 1000000) ++ "Z"

end MiningAgent.Calendar
