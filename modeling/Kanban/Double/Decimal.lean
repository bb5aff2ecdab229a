import Kanban.Double.Basic

/-!
# Decimal text of a double

`Double.ofDecimal` is the double nearest to a decimal number.  `Double.ofText?` reads an optional
sign followed by `inf`, `infinity`, `nan` (in any letter case) or by digits with an optional point
and an optional exponent; a digit has to stand on one side of the point.
-/

namespace Kanban.Double

/-- The double nearest to `digits * 10 ^ exponent`.  Exponents far outside the range are decided
without forming the power of ten. -/
def ofDecimal (negative : Bool) (digits : Nat) (exponent : Int) : Double :=
  if digits = 0 then ofMagnitude negative 0
  else if exponent ≥ 400 then infinite negative
  else if exponent ≥ 0 then ofQuotient negative (digits * Nat.pow 10 exponent.toNat * one) 1
  else
    let places := (-exponent).toNat
    if digits.log2 + 1 < 3 * (places - 400) then ofMagnitude negative 0
    else ofQuotient negative (digits * one) (Nat.pow 10 places)

/-- The value of decimal digits. -/
def digitsValue (cs : List Char) : Nat := cs.foldl (fun n c => 10 * n + (c.toNat - 48)) 0

/-- An exponent: an optional sign and at least one digit. -/
def exponentOf? (cs : List Char) : Option Int :=
  let (negative, digits) :=
    match cs with
    | '-' :: r => (true, r)
    | '+' :: r => (false, r)
    | r => (false, r)
  if digits.isEmpty || digits.any (!·.isDigit) then none
  else
    let n : Int := digitsValue digits
    some (if negative then -n else n)

/-- An unsigned decimal number. -/
def ofUnsigned? (negative : Bool) (cs : List Char) : Option Double :=
  let whole := cs.takeWhile Char.isDigit
  let afterWhole := cs.dropWhile Char.isDigit
  let (fraction, tail) :=
    match afterWhole with
    | '.' :: r => (r.takeWhile Char.isDigit, r.dropWhile Char.isDigit)
    | r => ([], r)
  if whole.isEmpty && fraction.isEmpty then none
  else
    let value (exponent : Int) :=
      ofDecimal negative (digitsValue (whole ++ fraction)) (exponent - fraction.length)
    match tail with
    | [] => some (value 0)
    | c :: r => if c = 'e' ∨ c = 'E' then (exponentOf? r).map value else none

/-- Reads the decimal text of a double. -/
def ofText? (cs : List Char) : Option Double :=
  let (negative, body) :=
    match cs with
    | '-' :: r => (true, r)
    | '+' :: r => (false, r)
    | r => (false, r)
  let word := String.ofList (body.map Char.toLower)
  if word = "inf" ∨ word = "infinity" then some (infinite negative)
  else if word = "nan" then some (nan negative)
  else ofUnsigned? negative body

end Kanban.Double
