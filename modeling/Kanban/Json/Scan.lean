import Kanban.Double.Decimal
import Kanban.Json.Value
import Kanban.Text.Basic

/-!
# Scanning JSON text

The parts of a JSON text, each read from the front of a list of characters: strings with their
escapes, numbers, words, and whole values that are skipped (`Json.skipValue`).  A text is faulty in
one of two ways: it is no JSON text, or it is not of the expected shape; the first fault counts.
-/

namespace Kanban.Json

/-- Why a text was not read. -/
inductive Fault where
  /-- The text is not JSON. -/
  | malformed
  /-- The text is not of the expected shape. -/
  | mismatched
  deriving DecidableEq

/-- Reads a value from the front of a text. -/
abbrev Reader (α : Type) := List Char → Except Fault (α × List Char)

/-- White space of JSON. -/
def isBlank (c : Char) : Bool := c = ' ' || c = '\n' || c = '\t' || c = '\r'

def skipBlank (cs : List Char) : List Char := cs.dropWhile isBlank

/-- The text continues with the word. -/
def word (w : String) (cs : List Char) : Except Fault (List Char) :=
  match Text.after? w.toList cs with
  | some rest => .ok rest
  | none => .error .malformed

/-! ### Strings -/

/-- The value of a hexadecimal digit. -/
def hexDigit? (c : Char) : Option Nat :=
  if c.isDigit then some (c.toNat - 48)
  else if 'a' ≤ c ∧ c ≤ 'f' then some (c.toNat - 87)
  else if 'A' ≤ c ∧ c ≤ 'F' then some (c.toNat - 55)
  else none

/-- The value of four hexadecimal digits. -/
def hex4? (a b c d : Char) : Option Nat := do
  let a ← hexDigit? a
  let b ← hexDigit? b
  let c ← hexDigit? c
  let d ← hexDigit? d
  some (((a * 16 + b) * 16 + c) * 16 + d)

/-- The character of an escape of one letter. -/
def escaped? (c : Char) : Option Char :=
  if c = '"' ∨ c = '\\' ∨ c = '/' then some c
  else if c = 'b' then some '\x08'
  else if c = 'f' then some '\x0c'
  else if c = 'n' then some '\n'
  else if c = 'r' then some '\r'
  else if c = 't' then some '\t'
  else none

/-- The rest of a string after its opening quote, in reverse order on top of `acc`.  Characters
beyond the basic plane are escaped as two halves, of which neither may stand alone. -/
def stringBody (acc : List Char) : List Char → Except Fault (List Char × List Char)
  | [] => .error .malformed
  | '\\' :: 'u' :: a :: b :: c :: d :: rest =>
    match hex4? a b c d with
    | none => .error .malformed
    | some high =>
      if 0xD800 ≤ high ∧ high < 0xDC00 then
        match rest with
        | '\\' :: 'u' :: a :: b :: c :: d :: rest =>
          match hex4? a b c d with
          | none => .error .malformed
          | some low =>
            if 0xDC00 ≤ low ∧ low < 0xE000 then
              let n := 0x10000 + (high - 0xD800) * 0x400 + (low - 0xDC00)
              stringBody (Char.ofNat n :: acc) rest
            else .error .malformed
        | _ => .error .malformed
      else if 0xDC00 ≤ high ∧ high < 0xE000 then .error .malformed
      else stringBody (Char.ofNat high :: acc) rest
  | '\\' :: c :: rest =>
    match escaped? c with
    | some e => stringBody (e :: acc) rest
    | none => .error .malformed
  | c :: rest =>
    if c = '"' then .ok (acc.reverse, rest)
    else if c = '\\' ∨ c.toNat < 0x20 then .error .malformed
    else stringBody (c :: acc) rest

/-- Skips the rest of a string after its opening quote; halves of characters may stand alone. -/
def skipString : List Char → Except Fault (List Char)
  | [] => .error .malformed
  | '\\' :: 'u' :: a :: b :: c :: d :: rest =>
    if (hex4? a b c d).isSome then skipString rest else .error .malformed
  | '\\' :: c :: rest => if (escaped? c).isSome then skipString rest else .error .malformed
  | c :: rest =>
    if c = '"' then .ok rest
    else if c = '\\' ∨ c.toNat < 0x20 then .error .malformed
    else skipString rest

/-! ### Numbers -/

/-- The digits of a number and its sign. -/
structure NumberText where
  negative : Bool
  whole : List Char
  fraction : Option (List Char)
  /-- The sign of the exponent, true for a minus, and its digits. -/
  exponent : Option (Bool × List Char)

/-- The digits after a point. -/
def fractionText : Reader (Option (List Char))
  | '.' :: cs =>
    let digits := cs.takeWhile Char.isDigit
    if digits.isEmpty then .error .malformed
    else .ok (some digits, cs.dropWhile Char.isDigit)
  | cs => .ok (none, cs)

/-- The sign and the digits of an exponent. -/
def exponentText (cs : List Char) : Except Fault (Option (Bool × List Char) × List Char) :=
  match cs with
  | e :: r =>
    if e = 'e' ∨ e = 'E' then
      let (negative, r) :=
        match r with
        | '+' :: r => (false, r)
        | '-' :: r => (true, r)
        | r => (false, r)
      let digits := r.takeWhile Char.isDigit
      if digits.isEmpty then .error .malformed
      else .ok (some (negative, digits), r.dropWhile Char.isDigit)
    else .ok (none, cs)
  | [] => .ok (none, [])

/-- The text of a number.  A leading zero stands alone before the point. -/
def numberText (cs : List Char) : Except Fault (NumberText × List Char) := do
  let (negative, cs) :=
    match cs with
    | '-' :: r => (true, r)
    | r => (false, r)
  let digits := cs.takeWhile Char.isDigit
  let whole := if digits.head? = some '0' then digits.take 1 else digits
  let rest := cs.drop whole.length
  if whole.isEmpty ∨ rest.head?.any Char.isDigit then .error .malformed
  else
    let (fraction, rest) ← fractionText rest
    let (exponent, rest) ← exponentText rest
    .ok (⟨negative, whole, fraction, exponent⟩, rest)

/-- A number: integers of 64 bits, with or without a sign, are kept exactly. -/
inductive Number where
  | int (i : Int)
  | double (x : Double)

/-- The first number that takes more than 64 bits: `2 ^ 64`. -/
def tooLarge : Nat := 18446744073709551616

/-- Appends digits to a significand as long as it stays below `2 ^ 64`; the remaining digits are
given back. -/
def absorb (significand : Nat) : List Char → Nat × List Char
  | [] => (significand, [])
  | c :: cs =>
    let next := 10 * significand + (c.toNat - 48)
    if next < tooLarge then absorb next cs else (significand, c :: cs)

/-- A power of ten as a double. -/
def powerOfTen (n : Nat) : Double := Double.ofDecimal false 1 n

/-- A significand scaled by a power of ten, with one multiplication or division for exponents up to
308 and repeated division by `10 ^ 308` before that; there is no answer when the number is too
large. -/
def scaled? (x : Double) (exponent : Int) : (divisions : Nat) → Option Double
  | 0 => some x
  | divisions + 1 =>
    if 0 ≤ exponent then
      if 308 < exponent then if x.isZero then some x else none
      else
        let y := x * powerOfTen exponent.toNat
        if y.isFinite then some y else none
    else if -308 ≤ exponent then some (x / powerOfTen (-exponent).toNat)
    else if x.isZero then some x
    else scaled? (x / powerOfTen 308) (exponent + 308) divisions

/-- The value of a number that is not a 64-bit integer.  Digits that no longer fit into 64 bits are
dropped. -/
def NumberText.toDouble (n : NumberText) : Except Fault Double :=
  let (significand, beyond) := absorb 0 n.whole
  let fraction := n.fraction.getD []
  let (significand, dropped) := absorb significand fraction
  let places : Int := beyond.length - (fraction.length - dropped.length : Nat)
  let exponent : Int :=
    match n.exponent with
    | none => 0
    | some (negative, digits) =>
      let e : Int := Double.digitsValue digits
      if negative then -e else e
  match scaled? (Double.ofInt significand) (places + exponent) 4 with
  | some x => .ok (if n.negative then -x else x)
  | none => .error .malformed

/-- The value of a number. -/
def NumberText.value (n : NumberText) : Except Fault Number :=
  let magnitude := Double.digitsValue n.whole
  if n.fraction.isSome ∨ n.exponent.isSome ∨ tooLarge ≤ magnitude then n.toDouble.map .double
  else if !n.negative then .ok (.int magnitude)
  else if 0 < magnitude ∧ magnitude ≤ tooLarge / 2 then .ok (.int (-(magnitude : Int)))
  else .ok (.double (-(Double.ofInt magnitude)))

/-- Reads a number. -/
def number (cs : List Char) : Except Fault (Number × List Char) := do
  let (digits, rest) ← numberText cs
  let n ← digits.value
  .ok (n, rest)

/-! ### Skipping -/

/-- Skips the name of a field and the colon after it. -/
def skipName (cs : List Char) : Except Fault (List Char) := do
  match skipBlank cs with
  | '"' :: r =>
    match skipBlank (← skipString r) with
    | ':' :: r => .ok r
    | _ => .error .malformed
  | _ => .error .malformed

mutual

/-- Skips a value without looking at its meaning; `depth` bounds the steps. -/
def skip : (depth : Nat) → List Char → Except Fault (List Char)
  | 0, _ => .error .malformed
  | depth + 1, cs =>
    match skipBlank cs with
    | [] => .error .malformed
    | c :: r =>
      if c = 'n' then word "ull" r
      else if c = 't' then word "rue" r
      else if c = 'f' then word "alse" r
      else if c = '"' then skipString r
      else if c = '-' ∨ c.isDigit then (numberText (c :: r)).map (·.2)
      else if c = '[' then
        match skipBlank r with
        | ']' :: r => .ok r
        | r => skipItems depth r
      else if c = '\x7b' then
        match skipBlank r with
        | '\x7d' :: r => .ok r
        | r => skipFields depth r
      else .error .malformed

/-- Skips the items of a list up to its closing bracket. -/
def skipItems : (depth : Nat) → List Char → Except Fault (List Char)
  | 0, _ => .error .malformed
  | depth + 1, cs => do
    match skipBlank (← skip depth cs) with
    | ',' :: r => skipItems depth r
    | ']' :: r => .ok r
    | _ => .error .malformed

/-- Skips the fields of an object up to its closing brace. -/
def skipFields : (depth : Nat) → List Char → Except Fault (List Char)
  | 0, _ => .error .malformed
  | depth + 1, cs => do
    match skipBlank (← skip depth (← skipName cs)) with
    | ',' :: r => skipFields depth r
    | '\x7d' :: r => .ok r
    | _ => .error .malformed

end

/-- Skips a value. -/
def skipValue (cs : List Char) : Except Fault (List Char) := skip (2 * cs.length + 2) cs

end Kanban.Json
