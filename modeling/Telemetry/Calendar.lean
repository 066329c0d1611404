import Telemetry.Text

namespace Telemetry

structure Date where
  year : Int
  month : Int
  day : Int
  deriving DecidableEq, Repr

namespace Date

/-- The date `n` days after the first of January 1970. Years are counted from March in cycles of
400. -/
def ofDays (n : Int) : Date :=
  let z := n + 719468
  let cycle := z / 146097
  let dayOfCycle := z % 146097
  let yearOfCycle :=
    (dayOfCycle - dayOfCycle / 1460 + dayOfCycle / 36524 - dayOfCycle / 146096) / 365
  let dayOfYear := dayOfCycle - (365 * yearOfCycle + yearOfCycle / 4 - yearOfCycle / 100)
  let monthFromMarch := (5 * dayOfYear + 2) / 153
  let month := if monthFromMarch < 10 then monthFromMarch + 3 else monthFromMarch - 9
  let year := yearOfCycle + cycle * 400
  let day := dayOfYear - (153 * monthFromMarch + 2) / 5 + 1
  ⟨if month ≤ 2 then year + 1 else year, month, day⟩

end Date

structure Moment where
  date : Date
  hour : Int
  minute : Int
  second : Int
  microsecond : Int
  deriving DecidableEq, Repr

namespace Moment

def ofSeconds (seconds fraction : Int) : Moment :=
  let ofDay := seconds % 86400
  ⟨Date.ofDays (seconds / 86400), ofDay / 3600, ofDay % 3600 / 60, ofDay % 60, fraction⟩

/-- The fields of an instant in nanoseconds. Microseconds and seconds are both cut toward zero; the
fraction is what remains, counted up from the second before when it is negative. -/
def ofNanoseconds (t : Int) : Moment :=
  let microseconds := t.tdiv 1000
  let seconds := microseconds.tdiv 1000000
  let rest := microseconds - seconds * 1000000
  ofSeconds seconds (if rest < 0 then rest + 1000000 else rest)

open Text in
def text (m : Moment) : Text :=
  fixedDigits 4 m.date.year.toNat ++ ascii "-" ++ fixedDigits 2 m.date.month.toNat ++ ascii "-"
    ++ fixedDigits 2 m.date.day.toNat ++ ascii " " ++ fixedDigits 2 m.hour.toNat ++ ascii ":"
    ++ fixedDigits 2 m.minute.toNat ++ ascii ":" ++ fixedDigits 2 m.second.toNat ++ ascii "."
    ++ fixedDigits 6 m.microsecond.toNat

end Moment

def timeText (t : Int) : Text := (Moment.ofNanoseconds t).text

end Telemetry
