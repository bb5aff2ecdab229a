import Kanban.Double.Shortest
import Kanban.Json.Value

/-!
# Printing JSON

A value is printed without white space (`Json.print`).  Doubles are written with their shortest
digits and always show that they are not integers, by a point or an exponent; those that JSON cannot
express are written as `null`.
-/

namespace Kanban.Json

/-! ### Strings -/

/-- A character inside a string. -/
def escapeChar (c : Char) : List Char :=
  if c = '"' then ['\\', '"']
  else if c = '\\' then ['\\', '\\']
  else if c = '\n' then ['\\', 'n']
  else if c = '\r' then ['\\', 'r']
  else if c = '\t' then ['\\', 't']
  else if c = '\x08' then ['\\', 'b']
  else if c = '\x0c' then ['\\', 'f']
  else if c.toNat < 0x20 then
    ['\\', 'u', '0', '0', Nat.digitChar (c.toNat / 16), Nat.digitChar (c.toNat % 16)]
  else [c]

/-- A string in quotes. -/
def printString (s : String) : String :=
  "\"" ++ String.ofList (s.toList.flatMap escapeChar) ++ "\""

/-! ### Doubles -/

/-- Digits of which the leading one has the given exponent: positional from `10 ^ (-5)` to
`10 ^ 16`, else with an exponent. -/
def printDigits (digits : List Char) (lead : Int) : List Char :=
  if 0 ≤ lead ∧ lead < 16 then
    let whole := lead.toNat + 1
    let padded := digits ++ List.replicate (whole - digits.length) '0'
    let fraction := padded.drop whole
    padded.take whole ++ '.' :: (if fraction.isEmpty then ['0'] else fraction)
  else if -5 ≤ lead ∧ lead < 0 then
    '0' :: '.' :: List.replicate (-lead - 1).toNat '0' ++ digits
  else
    let fraction := digits.drop 1
    digits.take 1 ++ (if fraction.isEmpty then [] else '.' :: fraction) ++
      'e' :: (toString lead).toList

/-- The text of a double. -/
def printDouble : Double → String
  | .finite negative m _ =>
    let sign := if negative then "-" else ""
    if m = 0 then sign ++ "0.0"
    else
      let (digits, lead) := Double.shortestDigits m
      sign ++ String.ofList (printDigits digits lead)
  | _ => "null"

/-! ### Values -/

mutual

/-- The text of a value. -/
def print : Json → String
  | null => "null"
  | bool b => if b then "true" else "false"
  | int i => toString i
  | double x => printDouble x
  | text s => printString s
  | list items => "[" ++ ",".intercalate (printItems items) ++ "]"
  | object fields => "\x7b" ++ ",".intercalate (printFields fields) ++ "\x7d"

/-- The texts of the items of a list. -/
def printItems : List Json → List String
  | [] => []
  | item :: items => item.print :: printItems items

/-- The texts of the fields of an object. -/
def printFields : List (String × Json) → List String
  | [] => []
  | (name, value) :: fields => (printString name ++ ":" ++ value.print) :: printFields fields

end

end Kanban.Json
