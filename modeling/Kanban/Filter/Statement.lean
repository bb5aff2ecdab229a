import Kanban.Filter.Expr

/-!
# Filters as statement text

A filter is handed to a relational store as the text of a boolean expression with a placeholder for
each value.  The pieces of the text are kept apart from the values bound to the placeholders, so
that no value is ever part of the text (`Expr.pieces`, `Expr.statement`).
-/

namespace Kanban.Filter

/-- A value bound to a placeholder. -/
inductive Bound where
  | value (v : Scalar)
  | pattern (text : String)
  deriving DecidableEq

/-- A piece of a statement. -/
inductive Piece where
  | text (s : String)
  | placeholder (b : Bound)
  deriving DecidableEq

def Piece.render : Piece → String
  | text s => s
  | placeholder _ => "?"

/-- The comparator in a statement. -/
def Comparator.statementText : Comparator → String
  | like => "LIKE"
  | among => "IN"
  | c => c.text

/-- The placeholder of a value; dates are compared by their Julian date. -/
def Scalar.pieces (julian : Bool) (v : Scalar) : List Piece :=
  match v with
  | .date _ =>
    if julian then [.text "julianday(", .placeholder (.value v), .text ")"]
    else [.placeholder (.value v)]
  | _ => [.placeholder (.value v)]

/-- The placeholders of several values. -/
def listPieces (julian : Bool) : List Scalar → List Piece
  | [] => []
  | [v] => v.pieces julian
  | v :: vs => v.pieces julian ++ .text ", " :: listPieces julian vs

/-- The pattern that finds a text anywhere. -/
def containing (text : String) : String := "%" ++ text ++ "%"

namespace Condition

/-- Asks for a linked row. -/
def relationPieces (c : Condition) : List Piece :=
  let opening := if c.comparator = .notEqual then "NOT EXISTS (" else "EXISTS ("
  let table :=
    if c.field = .labels then
      "SELECT 1 FROM label_tasks lt WHERE lt.task_id = t.id AND lt.label_id"
    else
      "SELECT 1 FROM task_assignees ta JOIN users u ON u.id = ta.user_id " ++
        "WHERE ta.task_id = t.id AND u.username"
  let body :=
    if c.comparator = .among then
      .text " IN (" :: listPieces false c.operand.values ++ [.text ")"]
    else .text " = " :: listPieces false c.operand.values
  .text opening :: .text table :: body ++ [.text ")"]

/-- Compares a column. -/
def columnPieces (column : String) (c : Condition) : List Piece :=
  let julian := c.field.kind = .date
  let left := if julian then "julianday(" ++ column ++ ")" else column
  match c.comparator with
  | .like =>
    let pattern := match c.operand with
      | .single (.text s) => containing s
      | _ => "%"
    [.text left, .text " LIKE ", .placeholder (.pattern pattern)]
  | .among =>
    .text left :: .text " IN (" :: listPieces julian c.operand.values ++ [.text ")"]
  | other =>
    .text left :: .text (" " ++ other.statementText ++ " ") ::
      listPieces julian c.operand.values

/-- A condition; with `nulls` a missing value matches too. -/
def pieces (nulls : Bool) (c : Condition) : List Piece :=
  match c.field.column? with
  | none => c.relationPieces
  | some column =>
    if nulls && c.field.isNullable then
      .text "(" :: c.columnPieces column ++ [.text (" OR " ++ column ++ " IS NULL)")]
    else c.columnPieces column

end Condition

namespace Expr

mutual

/-- The pieces of a filter; every group stands in parentheses. -/
def pieces (nulls : Bool) : Expr → List Piece
  | condition c => c.pieces nulls
  | all parts => .text "(" :: joined nulls " AND " parts ++ [.text ")"]
  | any parts => .text "(" :: joined nulls " OR " parts ++ [.text ")"]

def joined (nulls : Bool) (joiner : String) : List Expr → List Piece
  | [] => []
  | [e] => e.pieces nulls
  | e :: es => e.pieces nulls ++ .text joiner :: joined nulls joiner es

end

/-- The text of the statement. -/
def statement (nulls : Bool) (e : Expr) : String :=
  String.join ((e.pieces nulls).map Piece.render)

/-- The values of the placeholders from left to right. -/
def bounds (nulls : Bool) (e : Expr) : List Bound :=
  (e.pieces nulls).filterMap fun
    | .placeholder b => some b
    | .text _ => none

end Expr

end Kanban.Filter
