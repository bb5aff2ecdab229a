import Kanban.Calendar.Instant
import Kanban.Calendar.Zone

/-!
# Reading dates and times

Three grammars: the strict timestamp of filters (`Instant.ofTimestamp?`), the lenient timestamp of
request bodies (`Instant.ofLenientTimestamp?`), which allows white space and single digits, and the
local times of filters (`LocalTime.ofText?`), which are read in a time zone.
-/

namespace Kanban

/-! ### Characters and numbers -/

namespace Scan

/-- A number of at least one digit; with `most` no further digits are taken. -/
def number? (most : Option Nat) (cs : List Char) : Option (Nat × List Char) :=
  let digits := cs.takeWhile Char.isDigit
  let digits := match most with
    | some n => digits.take n
    | none => digits
  if digits.isEmpty then none
  else some (digits.foldl (fun n c => 10 * n + (c.toNat - 48)) 0, cs.drop digits.length)

/-- A number of exactly `n` digits. -/
def exactly? (n : Nat) (cs : List Char) : Option (Nat × List Char) := do
  let (value, rest) ← number? (some n) cs
  if cs.length = rest.length + n then some (value, rest) else none

/-- The given character. -/
def char? (c : Char) : List Char → Option (List Char)
  | [] => none
  | x :: r => if x = c then some r else none

/-- The letter `T`, in either case, or a space between date and time of day. -/
def divider? : List Char → Option (List Char)
  | [] => none
  | c :: r => if c = 'T' ∨ c = 't' ∨ c = ' ' then some r else none

/-- An optional fraction of a second, in nanoseconds; digits after the ninth are dropped. -/
def fraction? : List Char → Option (Nat × List Char)
  | '.' :: cs =>
    let digits := cs.takeWhile Char.isDigit
    if digits.isEmpty then none
    else
      let kept := digits.take 9
      let value := kept.foldl (fun n c => 10 * n + (c.toNat - 48)) 0
      some (value * Nat.pow 10 (9 - kept.length), cs.drop digits.length)
  | cs => some (0, cs)

/-- White space may precede a number of at most two digits. -/
def twoDigits? (cs : List Char) : Option (Nat × List Char) :=
  number? (some 2) (Text.trimStart cs)

/-- White space may precede a year; beyond four digits it needs a sign. -/
def year? (cs : List Char) : Option (Int × List Char) :=
  match Text.trimStart cs with
  | '-' :: r => (number? none r).map fun (n, rest) => (-(n : Int), rest)
  | '+' :: r => (number? none r).map fun (n, rest) => ((n : Int), rest)
  | r => (number? (some 4) r).map fun (n, rest) => ((n : Int), rest)

/-- The offset of a timestamp in seconds: `Z` or a sign, two digits of hours and two of minutes;
`separator?` reads what stands between hours and minutes. -/
def offset? (separator? : List Char → Option (List Char)) :
    List Char → Option (Int × List Char)
  | [] => none
  | c :: r =>
    if c = 'Z' ∨ c = 'z' then some (0, r)
    else if c = '+' ∨ c = '-' ∨ c = '\u2212' then do
      let (hours, r) ← exactly? 2 r
      let r ← separator? r
      let (minutes, r) ← exactly? 2 r
      if 60 ≤ minutes ∨ 24 ≤ hours then none
      else
        let seconds : Int := (hours * 3600 + minutes * 60 : Nat)
        some (if c = '+' then seconds else -seconds, r)
    else none

end Scan

/-! ### Local times -/

/-- What a calendar and a clock on the wall show: seconds since 1970-01-01 00:00 local time. -/
structure LocalTime where
  seconds : Int
  nanos : Nat

namespace LocalTime

/-- The local time of a date and a time of day.  Second 60 is a leap second. -/
def ofFields? (year : Int) (month day hour minute second nanos : Nat) : Option LocalTime := do
  let date ← Date.ofFields? year month day
  if 24 ≤ hour ∨ 60 ≤ minute ∨ 61 ≤ second then none
  else
    let leap := second = 60
    some {
      seconds := date.dayNumber * 86400 + ((hour * 60 + minute) * 60 + min second 59 : Nat)
      nanos := nanos + if leap then Instant.nanosPerSecond else 0 }

/-- The instant at which clocks ahead of UTC by `offset` seconds show the local time. -/
def toInstant? (t : LocalTime) (offset : Int) : Option Instant :=
  Instant.inRange? ⟨t.seconds - offset, t.nanos⟩

/-- The first instant at which the clocks of a zone show the local time. -/
def instantIn? (t : LocalTime) (z : Zone) : Option Instant := do
  let seconds ← z.instantOf? t.seconds
  Instant.inRange? ⟨seconds, t.nanos⟩

/-- How much of the time of day a local time gives. -/
inductive Detail where
  | seconds
  | minutes
  | day

/-- The time of day in the given detail, white space in front of it aside. -/
def clock? (detail : Detail) (cs : List Char) : Option (Nat × Nat × Nat × List Char) := do
  match detail with
  | .day => some (0, 0, 0, cs)
  | .minutes =>
    let (hour, r) ← Scan.twoDigits? cs
    let (minute, r) ← Scan.twoDigits? (← Scan.char? ':' r)
    some (hour, minute, 0, r)
  | .seconds =>
    let (hour, r) ← Scan.twoDigits? cs
    let (minute, r) ← Scan.twoDigits? (← Scan.char? ':' r)
    let (second, r) ← Scan.twoDigits? (← Scan.char? ':' r)
    some (hour, minute, second, r)

/-- Year, month and day with hyphens and then the time of day; nothing may follow. -/
def ofTextIn? (detail : Detail) (cs : List Char) : Option LocalTime := do
  let (year, r) ← Scan.year? cs
  let (month, r) ← Scan.twoDigits? (← Scan.char? '-' r)
  let (day, r) ← Scan.twoDigits? (← Scan.char? '-' r)
  let (hour, minute, second, r) ← clock? detail r
  if r.isEmpty then ofFields? year month day hour minute second 0 else none

/-- A local time with seconds, with minutes, or the midnight of a day. -/
def ofText? (cs : List Char) : Option LocalTime :=
  ofTextIn? .seconds cs <|> ofTextIn? .minutes cs <|> ofTextIn? .day cs

end LocalTime

namespace Instant

/-- A strict timestamp: all fields with their full number of digits, and an offset. -/
def ofTimestamp? (cs : List Char) : Option Instant := do
  let (year, r) ← Scan.exactly? 4 cs
  let (month, r) ← Scan.exactly? 2 (← Scan.char? '-' r)
  let (day, r) ← Scan.exactly? 2 (← Scan.char? '-' r)
  let (hour, r) ← Scan.exactly? 2 (← Scan.divider? r)
  let (minute, r) ← Scan.exactly? 2 (← Scan.char? ':' r)
  let (second, r) ← Scan.exactly? 2 (← Scan.char? ':' r)
  let (nanos, r) ← Scan.fraction? r
  let (offset, r) ← Scan.offset? (Scan.char? ':') r
  if r.isEmpty then
    (← LocalTime.ofFields? year month day hour minute second nanos).toInstant? offset
  else none

/-- An offset, or the name of universal time. -/
def lenientOffset? (cs : List Char) : Option (Int × List Char) :=
  if Text.sameWord (cs.take 3) "utc".toList then some (0, cs.drop 3)
  else Scan.offset? (fun r => some (r.dropWhile fun c => c = ':' || Text.isBlank c)) cs

/-- A lenient timestamp: numbers may be short, and white space may stand between all parts. -/
def ofLenientTimestamp? (cs : List Char) : Option Instant := do
  let (year, r) ← Scan.year? cs
  let (month, r) ← Scan.twoDigits? (← Scan.char? '-' (Text.trimStart r))
  let (day, r) ← Scan.twoDigits? (← Scan.char? '-' (Text.trimStart r))
  let (hour, r) ← Scan.twoDigits? (← Scan.divider? r)
  let (minute, r) ← Scan.twoDigits? (← Scan.char? ':' (Text.trimStart r))
  let (second, r) ← Scan.twoDigits? (← Scan.char? ':' (Text.trimStart r))
  let (nanos, r) ← Scan.fraction? r
  let (offset, r) ← lenientOffset? (Text.trimStart r)
  if Text.isAllBlank r then
    (← LocalTime.ofFields? year month day hour minute second nanos).toInstant? offset
  else none

end Instant

end Kanban
