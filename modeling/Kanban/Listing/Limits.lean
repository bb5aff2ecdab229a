import Kanban.Filter.Height
import Kanban.Filter.Statement
import Kanban.Listing.Plan
import Kanban.Store.Detail

/-!
# Limits of statements

Tasks are read by one statement, which names the project, the filters and the search and sorts the
rows.  The store refuses statements that are too large (`Extent.isAccepted`): those with too high an
expression, too many placeholders or too many terms of the order, and those with too long a pattern
as soon as there is a row to match it with.

What belongs to the tasks of a page is read by further statements, with a placeholder for each id
that is looked up (`Store.acceptIds`).  Two of them name every task, for labels and for assigned
users, and one names every user once (`Store.acceptDetails`); the creators of the buckets of a board
are looked up in the same way.  A task that is read by itself needs one placeholder for each of its
users, and no operation assigns users to tasks, so this read is not limited here.
-/

namespace Kanban

/-- How large a statement is. -/
structure Extent where
  /-- The height of the condition on a row and of what is nested with it. -/
  height : Nat
  placeholders : Nat
  orderTerms : Nat
  /-- The bytes of the longest pattern. -/
  patternBytes : Nat
  deriving DecidableEq

namespace Extent

def maxHeight : Nat := 1000
def maxPlaceholders : Nat := 32766
def maxOrderTerms : Nat := 2000
def maxPatternBytes : Nat := 50000

/-- The store carries out a statement of this size; `hasRows` says whether it has rows to read. -/
def isAccepted (hasRows : Bool) (e : Extent) : Bool :=
  e.height ≤ maxHeight && e.placeholders ≤ maxPlaceholders && e.orderTerms ≤ maxOrderTerms &&
    (e.patternBytes ≤ maxPatternBytes || !hasRows)

end Extent

/-! ### Parts of a statement -/

/-- The height of the condition on the project: a column is compared with a value. -/
def projectHeight : Nat := 3

/-- The heights of the condition for a search: two patterns are matched, and a number is compared
with the id. -/
def Search.heights (s : Search) : List Nat :=
  if s.isBlank then [] else [Filter.chainHeight (if s.id?.isSome then [3, 3, 3] else [3, 3])]

/-- The values bound for a search. -/
def Search.bounds (s : Search) : List Filter.Bound :=
  if s.isBlank then []
  else
    let pattern := .pattern (String.ofList s.pattern)
    pattern :: pattern :: s.id?.toList.map fun id => .value (.int id)

namespace Filter

/-- The bytes of a pattern. -/
def Bound.patternBytes : Bound → Nat
  | value _ => 0
  | pattern text => text.utf8ByteSize

end Filter

namespace Plan

/-- The size of a statement whose conditions, of the given heights, stand between the condition on
the project and the search.  Two placeholders are for the rows of the page.  The condition on linked
rows counts below the whole condition on a row, and this one below those around it, which have the
height `around`. -/
def extentWith (plan : Plan) (around : Nat) (exprs : List Filter.Expr) (heights : List Nat) :
    Extent :=
  let linked := exprs.foldr (fun e rest => max e.linkedHeight rest) 0
  let bounds := exprs.flatMap (·.bounds plan.includeNulls) ++ plan.search.bounds
  let columns := plan.sort.filter (!·.field.isRelation)
  let height := Filter.chainHeight (projectHeight :: heights ++ plan.search.heights)
  { height := height + max around linked
    placeholders := bounds.length + 3
    orderTerms := columns.length + (if plan.sort.any (·.field = .id) then 0 else 1)
    patternBytes := bounds.foldr (fun b rest => max b.patternBytes rest) 0 }

/-- The size of the statement that reads the list of a project. -/
def extent (plan : Plan) : Extent :=
  plan.extentWith 0 plan.expr.toList (plan.expr.toList.map (·.height plan.includeNulls))

/-- The height of what stands around the condition on a row in the statement of a board: the
condition that a row is the first one or one of the page, and the rows with their numbers. -/
def pagingHeight : Nat := 5

/-- The size of the statement that reads a board: a row has to meet one of the filters. -/
def boardExtent (shared : Plan) (plans : List Plan) : Extent :=
  let exprs := plans.filterMap (·.expr)
  shared.extentWith pagingHeight exprs
    [Filter.chainHeight (exprs.map (·.height shared.includeNulls))]

end Plan

namespace Store

/-- The statement of a read is carried out, or the store refuses it. -/
def accept (s : Store) (projectId : Int) (e : Extent) : Except Failure Unit :=
  if e.isAccepted (s.tasks.any (·.projectId == projectId)) then .ok () else .error .storage

/-- The statement of a board; without plans there is none. -/
def acceptBoard (s : Store) (projectId : Int) (plans : List Plan) : Except Failure Unit :=
  match plans with
  | [] => .ok ()
  | shared :: _ => s.accept projectId (shared.boardExtent plans)

/-- A statement that looks rows up by their ids is carried out, or the store refuses it. -/
def acceptIds (ids : List Int) : Except Failure Unit :=
  if ids.length ≤ Extent.maxPlaceholders then .ok () else .error .storage

/-- The statements for what belongs to tasks. -/
def acceptDetails (ds : List TaskDetail) : Except Failure Unit := do
  acceptIds (ds.map (·.task.id))
  acceptIds (ds.flatMap (·.userIds)).eraseDups

end Store

end Kanban
