import Kanban.Access
import Kanban.Filter.Truth
import Kanban.Listing.Limits

/-!
# Reading tasks by plan

The tasks of a project that a plan selects, in its order (`Store.select`), the pages of a project's
list (`Store.listTasks`) and the board (`Store.readBoard`): its buckets in order, each with a page
of its tasks and their number.
-/

namespace Kanban

/-! ### Order -/

/-- Missing values come first. -/
def compareCells (x y : Filter.Cell) : Ordering :=
  match x, y with
  | .missing, .missing => .eq
  | .missing, _ => .lt
  | _, .missing => .gt
  | x, y => (x.compare? y).getD .eq

/-- Comparison of two tasks by one field. -/
def SortKey.compare (k : SortKey) (t u : Task) : Ordering :=
  let ascending :=
    compareCells (Filter.columnWith .ofDateText t k.field)
      (Filter.columnWith .ofDateText u k.field)
  match k.direction with
  | .ascending => ascending
  | .descending => ascending.swap

/-- Comparison by a list of fields and, last of all, by id. -/
def compareBy : List SortKey → Task → Task → Ordering
  | [], t, u => compare t.id u.id
  | k :: ks, t, u => (k.compare t u).then (compareBy ks t u)

/-! ### Selection -/

namespace Store

/-- A filter, if there is one, is true of the task. -/
def satisfies (s : Store) (nulls : Bool) (expr : Option Filter.Expr) (t : Task) : Bool :=
  expr.all (·.matchesTask nulls (s.detail t))

/-- The tasks of a project that the plan selects, in its order. -/
def select (s : Store) (projectId : Int) (plan : Plan) : List Task :=
  (s.tasks.filter fun t =>
    t.projectId == projectId && s.satisfies plan.includeNulls plan.expr t &&
      plan.search.matchesTask t).mergeSort fun t u => (compareBy plan.sort t u).isLE

end Store

/-! ### The list of a project -/

/-- A page of the tasks of a project. -/
structure TaskPage where
  tasks : List TaskDetail
  /-- The number of tasks on all pages. -/
  total : Int
  page : Page

/-- The number of pages: the quotient rounded up.  The sums in it have 64 bits; when one of them
overflows, there is no result. -/
def TaskPage.pageCount? (p : TaskPage) : Option Int :=
  if p.page.size ≤ 0 then some 0
  else do
    let sum ← Integer.checked .int64 (p.total + p.page.size)
    let last ← Integer.checked .int64 (sum - 1)
    some (last.tdiv p.page.size)

namespace Store

/-- A page of the tasks of a project. -/
def listTasks (s : Store) (setup : Setup) (actor projectId : Int) (o : ListOptions) :
    Except Failure TaskPage := do
  let plan ← Plan.forProject setup s.now o
  let p ← s.projectFor .read actor projectId
  s.accept p.id plan.extent
  let selected := s.select p.id plan
  let details := (plan.page.slice selected).map s.detail
  acceptDetails details
  .ok { tasks := details, total := selected.length, page := plan.page }

/-! ### The board -/

/-- Some plan selects the task. -/
def wanted (s : Store) (plans : List (Int × Plan)) (t : Task) : Bool :=
  plans.any fun (_, plan) => s.satisfies plan.includeNulls plan.expr t

/-- The tasks of a project that some plan selects, in the order of the first plan. -/
def selectAny (s : Store) (projectId : Int) (plans : List (Int × Plan)) : List Task :=
  match plans with
  | [] => []
  | (_, shared) :: _ =>
    (s.tasks.filter fun t =>
      t.projectId == projectId && s.wanted plans t && shared.search.matchesTask t).mergeSort
        fun t u => (compareBy shared.sort t u).isLE

end Store

/-- A task with its number among the selected tasks of its bucket, from one, and how many these
are. -/
structure BoardRow where
  task : Task
  number : Nat
  total : Nat

namespace BoardRow

/-- Numbers the selected tasks bucket by bucket; those in `before` have their numbers already. -/
def numbered (selected : List Task) : (before rest : List Task) → List BoardRow
  | _, [] => []
  | before, t :: ts =>
    { task := t
      number := (before.filter (·.bucketId == t.bucketId)).length + 1
      total := (selected.filter (·.bucketId == t.bucketId)).length } ::
      numbered selected (before ++ [t]) ts

/-- The row is on the page of its bucket. -/
def isOnPage (p : Page) (r : BoardRow) : Bool :=
  p.offset < r.number && r.number ≤ Integer.saturate .int64 (p.offset + p.size)

/-- By bucket, then by number. -/
def le (q r : BoardRow) : Bool :=
  q.task.bucketId < r.task.bucketId ||
    (q.task.bucketId == r.task.bucketId && q.number ≤ r.number)

/-- The rows on the page of their bucket, and with them the first row of every bucket, which tells
how many there are even when the page lies behind them. -/
def returned (p : Page) (selected : List Task) : List BoardRow :=
  ((numbered selected [] selected).filter fun r => r.number == 1 || r.isOnPage p).mergeSort le

end BoardRow

/-- The tasks on the page of their bucket, and the number of matches in each bucket that has any. -/
structure BoardTasks where
  tasks : List Task := []
  totals : List (Int × Nat) := []

namespace Store

/-- Reads the tasks of a board in one go; page, order and search are those of the first plan. -/
def boardTasks (s : Store) (projectId : Int) (plans : List (Int × Plan)) : BoardTasks :=
  match plans with
  | [] => {}
  | (_, shared) :: _ =>
    let rows := BoardRow.returned shared.page (s.selectAny projectId plans)
    { tasks := (rows.filter (shared.page.offset < ·.number)).map (·.task)
      totals := rows.map fun r => (r.task.bucketId, r.total) }

/-- A bucket with those of the tasks that are in it. -/
def boardColumn (s : Store) (found : BoardTasks) (b : Bucket) : BucketDetail :=
  { s.bucketDetail b with
    tasks := (found.tasks.filter (·.bucketId == b.id)).map s.detail
    count := (found.totals.lookup b.id).getD 0 }

/-- The buckets of a project, each with a page of its tasks that match. -/
def readBoard (s : Store) (setup : Setup) (actor projectId : Int) (o : ListOptions) :
    Except Failure (List BucketDetail) := do
  let p ← s.projectFor .read actor projectId
  let buckets := s.bucketsOf p.id
  acceptIds (buckets.map (·.createdById)).eraseDups
  let plans ← Plan.forBoard setup s.now o (buckets.map (·.id))
  s.acceptBoard p.id (plans.map (·.2))
  let found := s.boardTasks p.id plans
  acceptDetails (found.tasks.map s.detail)
  .ok (buckets.map (s.boardColumn found))

end Store

end Kanban
