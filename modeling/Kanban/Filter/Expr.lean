import Kanban.Calendar.Instant
import Kanban.Double.Basic
import Kanban.Filter.Field

/-!
# Filter expressions

A filter is a tree of conditions joined by "and" (`Expr.all`) and "or" (`Expr.any`).  A condition
compares a field with one value or asks whether it is among several.  `Expr.pinned?` finds the ids
that every matching task must have in a field, when the expression ties the field to such a set.
-/

namespace Kanban.Filter

inductive Comparator where
  | equal
  | notEqual
  | greater
  | greaterEqual
  | less
  | lessEqual
  | like
  | among
  deriving DecidableEq

/-- The comparator as it is written in a filter. -/
def Comparator.text : Comparator → String
  | equal => "="
  | notEqual => "!="
  | greater => ">"
  | greaterEqual => ">="
  | less => "<"
  | lessEqual => "<="
  | like => "like"
  | among => "in"

/-- A single value. -/
inductive Scalar where
  | int (i : Int)
  | double (x : Double)
  | bool (b : Bool)
  | text (s : String)
  | date (t : Instant)
  deriving DecidableEq

/-- What a field is compared with. -/
inductive Operand where
  | single (value : Scalar)
  | several (values : List Scalar)
  deriving DecidableEq

/-- The values of an operand. -/
def Operand.values : Operand → List Scalar
  | single value => [value]
  | several values => values

structure Condition where
  field : Field
  comparator : Comparator
  operand : Operand
  deriving DecidableEq

inductive Expr where
  | condition (c : Condition)
  | all (parts : List Expr)
  | any (parts : List Expr)

namespace Expr

mutual

/-- The conditions from left to right. -/
def conditions : Expr → List Condition
  | condition c => [c]
  | all parts => conditionsOf parts
  | any parts => conditionsOf parts

def conditionsOf : List Expr → List Condition
  | [] => []
  | e :: es => e.conditions ++ conditionsOf es

end

/-- Some condition is about the field. -/
def references (e : Expr) (f : Field) : Bool := e.conditions.any (·.field = f)

end Expr

/-! ### Pinned ids -/

/-- Sets of ids as strictly increasing lists. -/
abbrev IdSet := List Int

namespace IdSet

def insert (i : Int) : IdSet → IdSet
  | [] => [i]
  | j :: js => if i < j then i :: j :: js else if i = j then j :: js else j :: insert i js

def ofList (is : List Int) : IdSet := is.foldr insert []

def union (a b : IdSet) : IdSet := a.foldr insert b

def inter (a b : IdSet) : IdSet := a.filter (b.contains ·)

end IdSet

/-- The ids to which a condition ties the field. -/
def Condition.pinned? (f : Field) (c : Condition) : Option IdSet :=
  if c.field = f then
    match c.comparator, c.operand with
    | .equal, .single (.int i) => some [i]
    | .among, .several values =>
      some (IdSet.ofList (values.filterMap fun
        | .int i => some i
        | _ => none))
    | _, _ => none
  else none

namespace Expr

mutual

/-- The ids that every matching task must have in the field, when the expression ties the field to
a set of ids: "and" intersects the sets of those parts that have one, "or" unites the sets if every
part has one. -/
def pinned? (f : Field) : Expr → Option IdSet
  | condition c => c.pinned? f
  | all parts => pinnedByAll? f parts
  | any parts => pinnedByAny? f parts

def pinnedByAll? (f : Field) : List Expr → Option IdSet
  | [] => none
  | e :: es =>
    match e.pinned? f, pinnedByAll? f es with
    | some a, some b => some (IdSet.inter a b)
    | some a, none => some a
    | none, b => b

def pinnedByAny? (f : Field) : List Expr → Option IdSet
  | [] => some []
  | e :: es =>
    match e.pinned? f, pinnedByAny? f es with
    | some a, some b => some (IdSet.union a b)
    | _, _ => none

end

end Expr

end Kanban.Filter
