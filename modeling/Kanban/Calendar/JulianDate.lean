import Kanban.Calendar.Instant
import Kanban.Double.Decimal

/-!
# Julian dates

Instants are compared by the milliseconds of their Julian date (`Instant.julianMillis?`): the days
since noon of 24 November 4714 BC, counted by one closed formula (`Date.julianDay`), and the time of
day.  The seconds with their fraction are a double, and so are the milliseconds before they are
rounded; a fraction that is a whole number of milliseconds and a half may therefore go either way
(`Instant.minuteMillis`).
-/

namespace Kanban

/-- The Julian day that begins at noon of the date.  January and February are the months 13 and 14
of the year before.  Quotients are rounded toward zero, so before the year 0 the days from March of
the last year of a century, unless it is a leap year, to the next February count one too many. -/
def Date.julianDay (d : Date) : Int :=
  let (year, month) := if d.month ≤ 2 then (d.year - 1, d.month + 12) else (d.year, d.month)
  let century := year.tdiv 100
  let leapDays := 2 - century + century.tdiv 4
  let yearDays := (36525 * (year + 4716)).tdiv 100
  let monthDays : Int := (306001 * (month + 1)) / 10000
  yearDays + monthDays + d.day + leapDays - 1524

namespace Instant

/-- The seconds of the minute with their fraction. -/
def minuteSeconds (t : Instant) : Double :=
  .ofInt (t.secondOfDay % 60 : Nat) + .ofDecimal false t.nanos (-9)

/-- The milliseconds of the minute, rounded to a whole number. -/
def minuteMillis (t : Instant) : Int :=
  (t.minuteSeconds * .ofInt 1000 + .ofDecimal false 5 (-1)).truncate

/-- The greatest Julian date in milliseconds: the last one of the year 9999. -/
def lastJulianMilli : Int := 464269060799999

/-- The Julian date in milliseconds.  Leap seconds, years from 10000 on and what lies before the
Julian period have none. -/
def julianMillis? (t : Instant) : Option Int :=
  let d := t.date
  let minutes : Int := (t.secondOfDay / 60 : Nat)
  let millis := d.julianDay * 86400000 - 43200000 + minutes * 60000 + t.minuteMillis
  if t.isLeapSecond ∨ d.year < -4713 ∨ 9999 < d.year then none
  else if millis < 0 ∨ lastJulianMilli < millis then none
  else some millis

end Instant

end Kanban
