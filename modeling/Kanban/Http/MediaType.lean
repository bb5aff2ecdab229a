import Kanban.Text.Basic

/-!
# Media types

The type of a body is written `type/subtype`, possibly with parameters after semicolons.  Of
interest is only whether the type is well formed and means JSON (`MediaType.isJson`).
-/

namespace Kanban.MediaType

/-- The characters of names. -/
def isNameChar (c : Char) : Bool :=
  c.isAlphanum || "!#$%&'*+-.^_`|~".toList.contains c

/-- The characters of a value in quotes. -/
def isQuotedChar (c : Char) : Bool := 31 < c.toNat && c.toNat != 127

/-- What a parameter consists of at the next character. -/
inductive Part where
  /-- Before the name; spaces are skipped. -/
  | start
  | name
  /-- Directly after the equals sign. -/
  | valueStart
  | value
  /-- In quotes; the flag is set once there is a character. -/
  | quoted (filled : Bool)
  /-- After the closing quote. -/
  | closed

/-- The parameters are well formed. -/
def validParameters : Part → List Char → Bool
  | .start, [] => true
  | .name, [] => false
  | .valueStart, [] => true
  | .value, [] => true
  | .quoted _, [] => false
  | .closed, [] => true
  | .start, c :: cs =>
    if c = ' ' then validParameters .start cs
    else isNameChar c && validParameters .name cs
  | .name, c :: cs =>
    if c = '=' then validParameters .valueStart cs
    else isNameChar c && validParameters .name cs
  | .valueStart, c :: cs =>
    if c = '"' then validParameters (.quoted false) cs
    else isNameChar c && validParameters .value cs
  | .value, c :: cs =>
    if c = ';' then validParameters .start cs
    else isNameChar c && validParameters .value cs
  | .quoted filled, c :: cs =>
    if c = '"' ∧ filled then validParameters .closed cs
    else isQuotedChar c && validParameters (.quoted true) cs
  | .closed, c :: cs =>
    if c = ';' then validParameters .start cs
    else c = ' ' && validParameters .closed cs

/-- The subtype in front of its last suffix, and that suffix. -/
def splitSuffix (subtype : List Char) : List Char × Option (List Char) :=
  let suffix := (subtype.reverse.takeWhile (· != '+')).reverse
  if suffix.length + 1 < subtype.length then
    (subtype.take (subtype.length - suffix.length - 1), some suffix)
  else (subtype, none)

/-- The type is `application/json` or has the suffix `+json`. -/
def isJson (mediaType : String) : Bool :=
  let cs := Text.lower mediaType.toList
  let main := cs.takeWhile (· != '/')
  let afterMain := cs.dropWhile (· != '/')
  let subtype := (afterMain.drop 1).takeWhile (· != ';')
  let parameters := ((afterMain.drop 1).dropWhile (· != ';')).drop 1
  let (base, suffix) := splitSuffix subtype
  !afterMain.isEmpty && main.all isNameChar && subtype.all isNameChar && !subtype.isEmpty &&
    validParameters .start parameters && main == "application".toList &&
    (base == "json".toList || suffix == some "json".toList)

end Kanban.MediaType
