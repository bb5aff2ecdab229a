/-!
# White space and letter case

Texts are trimmed of the characters with the Unicode property `White_Space` (`Text.isBlank`), and
names are compared without regard to the case of the 26 ASCII letters (`Text.sameWord`).
-/

namespace Kanban.Text

/-- The characters with the property `White_Space`. -/
def isBlank (c : Char) : Bool :=
  let n := c.toNat
  (9 ≤ n && n ≤ 13) || n == 0x20 || n == 0x85 || n == 0xA0 || n == 0x1680 ||
    (0x2000 ≤ n && n ≤ 0x200A) || n == 0x2028 || n == 0x2029 || n == 0x202F || n == 0x205F ||
    n == 0x3000

/-- The text without leading white space. -/
def trimStart (cs : List Char) : List Char := cs.dropWhile isBlank

/-- The text without trailing white space. -/
def trimEnd (cs : List Char) : List Char := (trimStart cs.reverse).reverse

def trim (cs : List Char) : List Char := trimEnd (trimStart cs)

/-- A string without leading and trailing white space. -/
def trimmed (s : String) : String := String.ofList (trim s.toList)

/-- Nothing but white space. -/
def isAllBlank (cs : List Char) : Bool := cs.all isBlank

/-- The ASCII letters in lower case, all other characters as they are. -/
def lower (cs : List Char) : List Char := cs.map Char.toLower

/-- The same text up to the case of ASCII letters. -/
def sameWord (a b : List Char) : Bool := lower a == lower b

/-- The number of bytes of the text in UTF-8. -/
def byteLength (cs : List Char) : Nat := cs.foldr (fun c n => c.utf8Size + n) 0

/-- What follows `token`, when the text begins with it. -/
def after? : (token cs : List Char) → Option (List Char)
  | [], cs => some cs
  | _ :: _, [] => none
  | t :: ts, c :: cs => if t = c then after? ts cs else none

/-- The parts of a text between occurrences of a separator; always at least one. -/
def splitAt (separator : Char) : List Char → List (List Char)
  | [] => [[]]
  | c :: cs =>
    if c = separator then [] :: splitAt separator cs
    else
      match splitAt separator cs with
      | [] => [[c]]
      | part :: parts => (c :: part) :: parts

/-- A number in decimal digits with the digits `0` put in front up to the given width. -/
def padded (width n : Nat) : String :=
  let digits := Nat.toDigits 10 n
  String.ofList (List.replicate (width - digits.length) '0' ++ digits)

end Kanban.Text
