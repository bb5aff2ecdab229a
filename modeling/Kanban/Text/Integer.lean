/-!
# Decimal text of an integer

An optional sign and at least one digit, with a value inside given bounds.  The characters are read
from the left; the first one that is no digit or that takes the value out of its bounds decides
how the reading fails (`Integer.Fault`).
-/

namespace Kanban

namespace Integer

/-- Bounds of the integers of a field. -/
structure Bounds where
  least : Int
  greatest : Int

/-- Whole numbers of 64 bits with a sign. -/
def Bounds.int64 : Bounds := ⟨-9223372036854775808, 9223372036854775807⟩

/-- Port numbers: 16 bits without a sign. -/
def Bounds.uint16 : Bounds := ⟨0, 65535⟩

/-- Inside the bounds. -/
def Bounds.holds (b : Bounds) (i : Int) : Bool := b.least ≤ i && i ≤ b.greatest

/-- Why a text is no integer of its field. -/
inductive Fault where
  | blank
  | invalidDigit
  | tooLarge
  | tooSmall
  deriving DecidableEq

def Fault.message : Fault → String
  | blank => "cannot parse integer from empty string"
  | invalidDigit => "invalid digit found in string"
  | tooLarge => "number too large to fit in target type"
  | tooSmall => "number too small to fit in target type"

/-- Appends the digits to `acc`, downwards for a negative number. -/
def readDigits (b : Bounds) (negative : Bool) (acc : Int) : List Char → Except Fault Int
  | [] => .ok acc
  | c :: cs =>
    if c.isDigit then
      let d : Int := (c.toNat - 48 : Nat)
      let next := if negative then 10 * acc - d else 10 * acc + d
      if next < b.least then .error .tooSmall
      else if b.greatest < next then .error .tooLarge
      else readDigits b negative next cs
    else .error .invalidDigit

/-- Reads an integer.  A minus sign is a digit out of place where no negative number is allowed. -/
def read (b : Bounds) : List Char → Except Fault Int
  | [] => .error .blank
  | ['+'] => .error .invalidDigit
  | ['-'] => .error .invalidDigit
  | '+' :: cs => readDigits b false 0 cs
  | '-' :: cs => if b.least < 0 then readDigits b true 0 cs else .error .invalidDigit
  | cs => readDigits b false 0 cs

/-- Reads a whole number of 64 bits. -/
def int64? (cs : List Char) : Option Int := (read .int64 cs).toOption

/-- The nearest number inside the bounds. -/
def saturate (b : Bounds) (i : Int) : Int := max b.least (min b.greatest i)

/-- The result of a computation, which is abandoned if the result lies outside the bounds. -/
def checked (b : Bounds) (i : Int) : Option Int := if b.holds i then some i else none

end Integer

end Kanban
