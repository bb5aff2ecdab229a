import Kanban.Double.Basic

/-!
# Doubles as 64 bits

The sign bit, the eleven exponent bits and the 52 fraction bits of the interchange format.  The
magnitudes of the finite doubles, written in this format, count upwards one by one
(`Double.magnitudeBits`): the exponent field counts the doublings of the spacing.
-/

namespace Kanban.Double

/-- The number of fractions: `2 ^ 52`. -/
def fractions : Nat := Nat.pow 2 52

/-- The sign bit: `2 ^ 63` for negative numbers. -/
def signBit (negative : Bool) : Nat := if negative then Nat.pow 2 63 else 0

/-- The exponent and fraction bits of a magnitude. -/
def magnitudeBits (m : Nat) : Nat := (m.log2 - 52) * fractions + m / step m

/-- The exponent and fraction bits of infinity. -/
def infinityBits : Nat := 2047 * fractions

def toBits (x : Double) : Nat :=
  match x with
  | finite negative m _ => signBit negative + magnitudeBits m
  | infinite negative => signBit negative + infinityBits
  | nan negative => signBit negative + infinityBits + fractions / 2

/-- The double of 64 bits; of what is not a number only the sign is kept. -/
def ofBits (bits : Nat) : Double :=
  let negative := bits / signBit true % 2 == 1
  let exponent := bits / fractions % 2048
  let fraction := bits % fractions
  if exponent = 2047 then
    if fraction = 0 then infinite negative else nan negative
  else if exponent = 0 then ofMagnitude negative fraction
  else ofMagnitude negative ((fractions + fraction) * Nat.pow 2 (exponent - 1))

end Kanban.Double
