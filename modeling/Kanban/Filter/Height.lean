import Kanban.Filter.Expr

/-!
# The height of a filter

As an expression of a statement a filter is a tree (`Expr.height`).  A value is a leaf, and a column
is a node above its name and the name of its table.  A call, a comparison and a negation stand above
what they are applied to, and a chain of "and" or "or" leans to the left, with one node for each
link (`chainHeight`).
-/

namespace Kanban.Filter

/-- The height of expressions that one operator joins from left to right. -/
def chainHeight : List Nat → Nat
  | [] => 0
  | h :: hs => hs.foldl (fun chain link => max chain link + 1) h

namespace Condition

/-- The height of the condition that the rows of a relation have to meet.  People are joined to the
task by one more comparison than labels. -/
def linkedHeight (c : Condition) : Nat :=
  match c.field with
  | .labels => 4
  | .assignees => 5
  | _ => 0

/-- The height of a condition: above the columns of dates stands the call that counts their days,
and with `nulls` the test for a missing value is one more link. -/
def height (nulls : Bool) (c : Condition) : Nat :=
  if c.field.isRelation then if c.comparator = .notEqual then 6 else 5
  else
    let comparison := if c.field.kind = .date then 4 else 3
    if nulls && c.field.isNullable then comparison + 1 else comparison

end Condition

namespace Expr

mutual

/-- The height of a filter. -/
def height (nulls : Bool) : Expr → Nat
  | condition c => c.height nulls
  | all parts => chainHeight (heights nulls parts)
  | any parts => chainHeight (heights nulls parts)

def heights (nulls : Bool) : List Expr → List Nat
  | [] => []
  | e :: es => e.height nulls :: heights nulls es

end

/-- The height of what is asked of linked rows. -/
def linkedHeight (e : Expr) : Nat :=
  e.conditions.foldr (fun c rest => max c.linkedHeight rest) 0

end Expr

end Kanban.Filter
