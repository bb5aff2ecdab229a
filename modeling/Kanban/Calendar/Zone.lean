import Kanban.Calendar.Date

/-!
# Time zones

A zone says by how much its clocks are ahead of UTC.  Before the first change its clocks show local
mean time.  The history of a zone lists single changes and stretches of years with the same rules;
rules that are still in force are carried on through 2099.  `Zone.instantOf?` finds the second at
which the clocks show a given local time: none when the clocks skip it, the earlier one when they
show it twice.
-/

namespace Kanban

namespace Zone

/-- A Sunday of a month. -/
inductive Sunday where
  | nth (n : Nat)
  | last

/-- A yearly change of the clocks: `second` seconds of UTC after the start of the given Sunday the
clocks begin to be `offset` seconds ahead of UTC. -/
structure Switch where
  month : Nat
  sunday : Sunday
  second : Int
  offset : Int

/-- The day number of a Sunday of a month. -/
def Sunday.dayNumber (year : Int) (month : Nat) : Sunday → Int
  | nth n =>
    let first := (Date.mk year month 1).dayNumber
    first + (-Date.daysAfterSunday first) % 7 + 7 * ((n : Int) - 1)
  | last =>
    let final := (Date.mk year month (Date.monthLength year month)).dayNumber
    final - Date.daysAfterSunday final

/-- The change in a given year: from which second on the offset holds. -/
def Switch.change (year : Int) (s : Switch) : Int × Int :=
  (s.sunday.dayNumber year s.month * 86400 + s.second, s.offset)

/-- The last year for which changes are foreseen. -/
def horizon : Nat := 2099

/-- A part of the history of the clocks. -/
inductive Stretch where
  /-- From a second of UTC on the clocks are `offset` seconds ahead. -/
  | once (second offset : Int)
  /-- The changes of each year from the first to the last one. -/
  | yearly (first last : Nat) (switches : List Switch)

/-- The changes `(t, offset)`: the offset holds from second `t` of UTC on. -/
def Stretch.changes : Stretch → List (Int × Int)
  | once second offset => [(second, offset)]
  | yearly first last switches =>
    (List.range (last + 1 - first)).flatMap fun i =>
      switches.map (Switch.change ((first + i : Nat) : Int))

end Zone

/-- A time zone. -/
structure Zone where
  name : String
  /-- How far local mean time is ahead of UTC. -/
  localMean : Int
  history : List Zone.Stretch := []

namespace Zone

/-- Clocks that are ahead of UTC by the same amount at all times. -/
def fixed (name : String) (offset : Int) : Zone where
  name := name
  localMean := offset

/-- Universal time. -/
def utc : Zone := .fixed "UTC" 0

/-- All changes in the order of time. -/
def changes (z : Zone) : List (Int × Int) := z.history.flatMap Stretch.changes

/-- Looks through the spans of constant offset for the first one in which the clocks show the local
second `t`.  The current span begins at `start`, if it has a beginning, and ends at the next
change. -/
def findInstant (t : Int) (start : Option Int) (offset : Int) : List (Int × Int) → Option Int
  | [] => if start.all (· ≤ t - offset) then some (t - offset) else none
  | (next, nextOffset) :: rest =>
    if start.all (· ≤ t - offset) ∧ t - offset < next then some (t - offset)
    else findInstant t (some next) nextOffset rest

/-- The first second of UTC at which the clocks of the zone show the local second `t`. -/
def instantOf? (z : Zone) (t : Int) : Option Int := findInstant t none z.localMean z.changes

end Zone

end Kanban
