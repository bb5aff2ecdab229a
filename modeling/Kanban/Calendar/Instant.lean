import Kanban.Calendar.Date
import Kanban.Text.Basic

/-!
# Instants

A point in time: seconds since 1970-01-01 00:00 and nanoseconds.  A leap second `:60` is the second
before it with nanoseconds from `10 ^ 9` on.  Instants are written with as many digits of the
fraction as needed, in groups of three (`Instant.text`).
-/

namespace Kanban

/-- A point in time. -/
structure Instant where
  seconds : Int
  nanos : Nat := 0
  deriving DecidableEq

namespace Instant

instance : Inhabited Instant := ⟨⟨0, 0⟩⟩

def secondsPerDay : Int := 86400

def nanosPerSecond : Nat := 1000000000

/-- The first and the last second that an instant may have. -/
def firstSecond : Int := (Date.mk Date.firstYear 1 1).dayNumber * secondsPerDay
def lastSecond : Int := (Date.mk Date.lastYear 12 31).dayNumber * secondsPerDay + 86399

/-- The instant, when its year is one that dates may have. -/
def inRange? (t : Instant) : Option Instant :=
  if firstSecond ≤ t.seconds ∧ t.seconds ≤ lastSecond then some t else none

/-- The date of the instant. -/
def date (t : Instant) : Date := Date.ofDayNumber (t.seconds.fdiv secondsPerDay)

/-- Seconds since midnight. -/
def secondOfDay (t : Instant) : Nat := (t.seconds.fmod secondsPerDay).toNat

/-- Part of a leap second. -/
def isLeapSecond (t : Instant) : Bool := nanosPerSecond ≤ t.nanos

/-! ### Text -/

/-- Four digits at least; years that need more, and negative ones, carry a sign. -/
def yearText (year : Int) : String :=
  if 0 ≤ year ∧ year ≤ 9999 then Text.padded 4 year.toNat
  else if year < 0 then "-" ++ Text.padded 4 year.natAbs
  else "+" ++ Text.padded 4 year.natAbs

/-- The fraction of a second, in none, three, six or nine digits. -/
def fractionText (nanos : Nat) : String :=
  if nanos = 0 then ""
  else if nanos % 1000000 = 0 then "." ++ Text.padded 3 (nanos / 1000000)
  else if nanos % 1000 = 0 then "." ++ Text.padded 6 (nanos / 1000)
  else "." ++ Text.padded 9 nanos

/-- Date and time of day with the given text for the offset from UTC. -/
def textWith (offset : String) (t : Instant) : String :=
  let d := t.date
  let s := t.secondOfDay
  let second := s % 60 + (if t.isLeapSecond then 1 else 0)
  yearText d.year ++ "-" ++ Text.padded 2 d.month ++ "-" ++ Text.padded 2 d.day ++ "T" ++
    Text.padded 2 (s / 3600) ++ ":" ++ Text.padded 2 (s / 60 % 60) ++ ":" ++
    Text.padded 2 second ++ fractionText (t.nanos % nanosPerSecond) ++ offset

/-- The text that answers show. -/
def text (t : Instant) : String := t.textWith "Z"

/-- The text by which rows are sorted. -/
def sortText (t : Instant) : String := t.textWith "+00:00"

end Instant

end Kanban
