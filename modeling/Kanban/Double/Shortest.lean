import Kanban.Double.Basic

/-!
# Shortest decimal text of a double

A finite double is written with the fewest decimal digits that are read back as the same double
(`Double.shortest`).  For one digit, two digits and so on, the two decimal numbers around the value
are tried, the nearer one first; 17 digits always suffice.
-/

namespace Kanban.Double

/-- The number of decimal digits. -/
def digitCount (n : Nat) : Nat := (Nat.toDigits 10 n).length

/-- The exponent of the leading decimal digit of a positive magnitude. -/
def leadingExponent (m : Nat) : Int :=
  if one ≤ m then digitCount (m / one) - 1 else -(digitCount ((one - 1) / m) : Int)

/-- The units of `10 ^ e`, as a quotient of two naturals. -/
def powerUnits (e : Int) : Nat × Nat :=
  if 0 ≤ e then (Nat.pow 10 e.toNat * one, 1) else (one, Nat.pow 10 (-e).toNat)

/-- The multiple of `10 ^ e` next to the magnitude that is read back as this magnitude, if there is
one; the nearer one is preferred. -/
def multipleAt? (m : Nat) (e : Int) : Option Nat :=
  let (num, den) := powerUnits e
  let low := m * den / num
  let rest := m * den % num
  let candidates := if 2 * rest < num then [low, low + 1] else [low + 1, low]
  candidates.find? fun count => nearest (count * num) den == m

/-- The shortest decimal digits of a positive magnitude, with the exponent of the last one. -/
def shortest (m : Nat) : Nat × Int :=
  let lead := leadingExponent m
  let found? := (List.range 17).findSome? fun n : Nat =>
    (multipleAt? m (lead - n)).map fun count => (count, lead - n)
  found?.getD (0, 0)

/-- The digits without zeros at their end, and the exponent of the leading digit. -/
def shortestDigits (m : Nat) : List Char × Int :=
  let (count, e) := shortest m
  let digits := Nat.toDigits 10 count
  (((digits.reverse.dropWhile (· == '0')).reverse), e + digits.length - 1)

end Kanban.Double
