import Kanban.Failure

/-!
# Sort lists

A list of fields by which tasks are sorted, each with a direction, read from two lists with commas:
the names of the fields and the directions.  Blank entries of either list do not count; the
remaining directions go to the remaining fields in order, and a field without one is ascending.
-/

namespace Kanban

inductive Direction where
  | ascending
  | descending
  deriving DecidableEq

/-- The direction as it is written in a request. -/
def Direction.name : Direction → String
  | ascending => "asc"
  | descending => "desc"

/-- A field to sort by. -/
structure SortKey where
  field : Field
  direction : Direction := .ascending
  deriving DecidableEq

namespace SortKey

/-- The entries of a list with commas that are not blank, without the white space around them. -/
def entries (list : String) : List (List Char) :=
  ((Text.splitAt ',' list.toList).map Text.trim).filter (!·.isEmpty)

/-- The field of a name that tasks can be sorted by. -/
def readField (name : List Char) : Except Failure Field :=
  match Field.ofName? name with
  | some f =>
    if f.isRelation then .error (.invalid (.unsortableField (String.ofList name))) else .ok f
  | none => .error (.invalid (.unsortableField (String.ofList name)))

/-- The direction of a word in any letter case; a missing one is ascending. -/
def readDirection : Option (List Char) → Except Failure Direction
  | none => .ok .ascending
  | some word =>
    let word := String.ofList (Text.lower word)
    if word = "asc" then .ok .ascending
    else if word = "desc" then .ok .descending
    else .error (.invalid (.unknownDirection word))

/-- Gives the names their directions in order. -/
def pair : (names directions : List (List Char)) → Except Failure (List SortKey)
  | [], _ => .ok []
  | name :: names, directions => do
    let f ← readField name
    let d ← readDirection directions.head?
    let more ← pair names directions.tail
    .ok (⟨f, d⟩ :: more)

/-- Reads a sort list. -/
def parse (fields directions : String) : Except Failure (List SortKey) :=
  pair (entries fields) (entries directions)

end SortKey

end Kanban
