import Kanban.Json.Scan
import Kanban.Text.Utf8

/-!
# Escapes of addresses

In the address of a request a percent sign with two hexadecimal digits stands for a byte.  The
query of an address is a list of names with values (`Form.pairs`), in which a plus sign stands for
a space.
-/

namespace Kanban.Form

/-- The bytes of a text with escapes; a percent sign that begins no escape stands for itself. -/
def bytes : List Nat → List Nat
  | 37 :: a :: b :: rest =>
    match Json.hexDigit? (Char.ofNat a), Json.hexDigit? (Char.ofNat b) with
    | some x, some y => (16 * x + y) :: bytes rest
    | _, _ => 37 :: bytes (a :: b :: rest)
  | b :: rest => b :: bytes rest
  | [] => []

/-- A part of a path, without escapes. -/
def segment? (cs : List Char) : Option (List Char) :=
  Utf8.text? (bytes (Utf8.encode (String.ofList cs)))

/-- A name or value of a query, without escapes. -/
def component (cs : List Char) : String :=
  let spaced := cs.map fun c => if c = '+' then ' ' else c
  String.ofList (Utf8.lenientText (bytes (Utf8.encode (String.ofList spaced))))

/-- The names and values of a query. -/
def pairs (query : List Char) : List (String × String) :=
  ((Text.splitAt '&' query).filter (!·.isEmpty)).map fun part =>
    (component (part.takeWhile (· != '=')), component ((part.dropWhile (· != '=')).drop 1))

end Kanban.Form
