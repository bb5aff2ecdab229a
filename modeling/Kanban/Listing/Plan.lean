import Kanban.Filter.Parser
import Kanban.Listing.Search
import Kanban.Listing.Sort
import Kanban.Text.Integer

/-!
# Plans for reading tasks

A request for tasks (`ListOptions`) is turned into a plan (`Plan`) for one place: the list of a
project (`Plan.forProject`), a bucket (`Plan.forBucket`) or all buckets of a board
(`Plan.forBoard`).  The plan holds the filter that was read, the order and a page of bounded size.
For a bucket the condition on the bucket is added to the text of the filter, unless the filter
speaks of buckets itself.  How large pages may be, and which zones there are, is given from outside
(`Setup`).
-/

namespace Kanban

/-- A page of a list. -/
structure Page where
  number : Int
  size : Int
  deriving DecidableEq

namespace Page

/-- The rows before the page; far pages begin at the greatest 64-bit number. -/
def offset (p : Page) : Int := Integer.saturate .int64 ((max p.number 1 - 1) * p.size)

/-- The page with a number from 1 and a size from 1 to `most`; a size that is not positive stands
for `most`. -/
def clamp (most : Int) (p : Page) : Page where
  number := max p.number 1
  size := if p.size ≤ 0 then most else min p.size most

/-- The rows of the page. -/
def slice (p : Page) (rows : List α) : List α := (rows.drop p.offset.toNat).take p.size.toNat

end Page

/-- What a request for tasks asks for. -/
structure ListOptions where
  sort : List SortKey := []
  page : Page := ⟨0, 0⟩
  search : String := ""
  filter : String := ""
  zone : String := ""
  includeNulls : Bool := false

/-- What requests are read with: the configured size of a page, and the time zones by their names.
If none is given, only universal time is known. -/
structure Setup where
  maxPerPage : Int := 50
  zones : String → Option Zone := fun _ => none

/-- How tasks are read. -/
structure Plan where
  sort : List SortKey
  page : Page
  search : Search
  filter : String
  includeNulls : Bool
  expr : Option Filter.Expr

/-- The text of the condition that a field has an id. -/
def idCondition (f : Field) (id : Int) : String := f.name ++ " = " ++ toString id

/-- A filter with the condition that a field has an id. -/
def scopedFilter (filter : String) (f : Field) (id : Int) : String :=
  if Text.isAllBlank filter.toList then idCondition f id
  else "(" ++ filter ++ ") && " ++ idCondition f id

namespace Plan

/-- The largest page that the configured one allows: at least one row. -/
def pageLimit (most : Int) : Int := max most 1

/-- Reads the filter of a request. -/
def parseFilter (zones : String → Option Zone) (now : Instant) (filter zone : String) :
    Except Failure (Option Filter.Expr) :=
  (Filter.parse zones now filter zone).mapError .filter

/-- A plan with the given filter and order. -/
def ofOptions (most : Int) (o : ListOptions) (filter : String) (expr : Option Filter.Expr)
    (sort : List SortKey) : Plan where
  sort := sort
  page := o.page.clamp (pageLimit most)
  search := .ofText o.search
  filter := filter
  includeNulls := o.includeNulls
  expr := expr

/-- The order inside a bucket. -/
def bucketOrder : List SortKey := [⟨.kanbanPosition, .ascending⟩, ⟨.id, .ascending⟩]

/-- The tasks of one bucket in their order on the board. -/
def forBucket (setup : Setup) (now : Instant) (o : ListOptions) (bucket : Int) :
    Except Failure Plan := do
  let expr ← parseFilter setup.zones now o.filter o.zone
  if expr.any (·.references .bucketId) then
    .ok (ofOptions setup.maxPerPage o o.filter expr bucketOrder)
  else
    let filter := scopedFilter o.filter .bucketId bucket
    let expr ← parseFilter setup.zones now filter o.zone
    .ok (ofOptions setup.maxPerPage o filter expr bucketOrder)

/-- The buckets that the filter leaves in question. -/
def relevant (expr : Option Filter.Expr) (buckets : List Int) : List Int :=
  match expr.bind (·.pinned? .bucketId) with
  | none => buckets
  | some ids => buckets.filter (ids.contains ·)

/-- The plans for the buckets of a board; buckets that the filter excludes get none. -/
def forBoard (setup : Setup) (now : Instant) (o : ListOptions) (buckets : List Int) :
    Except Failure (List (Int × Plan)) := do
  let expr ← parseFilter setup.zones now o.filter o.zone
  (relevant expr buckets).mapM fun id => do
    let plan ← forBucket setup now o id
    .ok (id, plan)

/-- The tasks of a project, by list position unless another order is asked for. -/
def forProject (setup : Setup) (now : Instant) (o : ListOptions) : Except Failure Plan := do
  let expr ← parseFilter setup.zones now o.filter o.zone
  let sort := if o.sort.isEmpty then [⟨.position, .ascending⟩] else o.sort
  .ok (ofOptions setup.maxPerPage o o.filter expr sort)

end Plan

end Kanban
