import Kanban.Calendar.JulianDate
import Kanban.Filter.Statement
import Kanban.Store.Detail
import Kanban.Text.Pattern

/-!
# What a filter means

A condition on a task is true, false or, when a value is missing, unknown (`Truth`).  Truth values
are joined as in a relational store: "and" is false as soon as one part is false, "or" is true as
soon as one part is true, and otherwise an unknown part makes the whole unknown.  A task matches a
filter that is true of it (`Expr.matchesTask`).
-/

namespace Kanban.Filter

/-- A truth value; `none` is unknown. -/
abbrev Truth := Option Bool

namespace Truth

def and (a b : Truth) : Truth :=
  match a, b with
  | some false, _ => some false
  | _, some false => some false
  | some true, some true => some true
  | _, _ => none

def or (a b : Truth) : Truth :=
  match a, b with
  | some true, _ => some true
  | _, some true => some true
  | some false, some false => some false
  | _, _ => none

def not (a : Truth) : Truth := Option.map Bool.not a

end Truth

/-! ### Values of columns -/

/-- A value of a column. -/
inductive Cell where
  | missing
  | int (i : Int)
  | double (x : Double)
  | text (s : String)

namespace Cell

/-- Comparison of two values of a column; without an answer when one of them is missing. -/
def compare? : Cell → Cell → Option Ordering
  | int i, int j => some (compare i j)
  | double x, double y => x.compare? y
  | text s, text t => some (compare s t)
  | _, _ => none

def ofBool (b : Bool) : Cell := int (if b then 1 else 0)

def ofDouble (x : Double) : Cell := if x.isNaN then missing else double x

/-- A date for comparison. -/
def ofJulian (t : Option Instant) : Cell :=
  match t.bind (·.julianMillis?) with
  | some millis => int millis
  | none => missing

/-- A date for sorting. -/
def ofDateText (t : Option Instant) : Cell :=
  match t with
  | some t => text t.sortText
  | none => missing

end Cell

/-- A value of a filter for comparison. -/
def Scalar.cell : Scalar → Cell
  | int i => .int i
  | double x => .ofDouble x
  | bool b => .ofBool b
  | text s => .text s
  | date t => .ofJulian (some t)

/-- The value of a field of a task; `ofDate` makes values of dates. -/
def columnWith (ofDate : Option Instant → Cell) (t : Task) : Field → Cell
  | .id => .int t.id
  | .title => .text t.title
  | .description =>
    match t.description with
    | some s => .text s
    | none => .missing
  | .done => .ofBool t.done
  | .doneAt => ofDate t.doneAt
  | .dueDate => ofDate t.dueDate
  | .priority => .int t.priority
  | .percentDone => .ofDouble t.percentDone
  | .bucketId => .int t.bucketId
  | .position => .ofDouble t.position
  | .kanbanPosition => .ofDouble t.kanbanPosition
  | .created => ofDate (some t.created)
  | .updated => ofDate (some t.updated)
  | .labels | .assignees => .missing

/-- The value of a field of a task is missing. -/
def isMissing (t : Task) (f : Field) : Bool :=
  match f with
  | .description => t.description.isNone
  | .doneAt => t.doneAt.isNone
  | .dueDate => t.dueDate.isNone
  | _ => false

/-! ### Conditions -/

/-- Two values compare in one of the given ways. -/
def ordered (holds : Ordering → Bool) (x y : Cell) : Truth := (x.compare? y).map holds

/-- The value is among several. -/
def amongCells (x : Cell) : List Cell → Truth
  | [] => some false
  | y :: ys => Truth.or (ordered (· == .eq) x y) (amongCells x ys)

/-- A text contains another one, as a pattern. -/
def containsText (x : Cell) (pattern : String) : Truth :=
  match x with
  | .text s => some (Text.matchesPattern pattern.toList s.toList)
  | _ => none

/-- The first value of an operand. -/
def Operand.firstCell (o : Operand) : Cell :=
  match o.values with
  | [] => .missing
  | v :: _ => v.cell

namespace Condition

/-- What the condition says about a column with value `x`. -/
def columnTruth (c : Condition) (x : Cell) : Truth :=
  match c.comparator with
  | .equal => ordered (· == .eq) x c.operand.firstCell
  | .notEqual => ordered (· != .eq) x c.operand.firstCell
  | .greater => ordered (· == .gt) x c.operand.firstCell
  | .greaterEqual => ordered (· != .lt) x c.operand.firstCell
  | .less => ordered (· == .lt) x c.operand.firstCell
  | .lessEqual => ordered (· != .gt) x c.operand.firstCell
  | .like =>
    match c.operand with
    | .single (.text s) => containsText x (containing s)
    | _ => containsText x "%"
  | .among => amongCells x (c.operand.values.map Scalar.cell)

/-- The values of the linked rows: ids of labels or names of users. -/
def linked (d : TaskDetail) (f : Field) : List Cell :=
  if f = .labels then d.labels.map fun l => .int l.id
  else d.assignees.map fun u => .text u.username

/-- The condition is true of a linked row. -/
def holdsOfLinked (c : Condition) (x : Cell) : Bool :=
  if c.comparator = .among then amongCells x (c.operand.values.map Scalar.cell) == some true
  else ordered (· == .eq) x c.operand.firstCell == some true

/-- What the condition says about a task; with `nulls` it also holds of a missing value. -/
def truth (nulls : Bool) (d : TaskDetail) (c : Condition) : Truth :=
  if c.field.isRelation then
    let linked := (linked d c.field).any c.holdsOfLinked
    some (if c.comparator = .notEqual then !linked else linked)
  else
    let value := c.columnTruth (columnWith Cell.ofJulian d.task c.field)
    if nulls && c.field.isNullable then value.or (some (isMissing d.task c.field)) else value

end Condition

/-! ### Expressions -/

namespace Expr

mutual

/-- What a filter says about a task. -/
def truth (nulls : Bool) (d : TaskDetail) : Expr → Truth
  | condition c => c.truth nulls d
  | all parts => truthOfAll nulls d parts
  | any parts => truthOfAny nulls d parts

def truthOfAll (nulls : Bool) (d : TaskDetail) : List Expr → Truth
  | [] => some true
  | e :: es => Truth.and (e.truth nulls d) (truthOfAll nulls d es)

def truthOfAny (nulls : Bool) (d : TaskDetail) : List Expr → Truth
  | [] => some false
  | e :: es => Truth.or (e.truth nulls d) (truthOfAny nulls d es)

end

/-- The filter is true of the task. -/
def matchesTask (nulls : Bool) (d : TaskDetail) (e : Expr) : Bool := e.truth nulls d == some true

end Expr

end Kanban.Filter
