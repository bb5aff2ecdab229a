import Kanban.Text.Basic

/-!
# Fields of a task

The fields that a filter may name, each with its kind of value.  Most are columns of the task;
labels and assignees are relations, of which a condition asks whether a linked row exists.
-/

namespace Kanban

inductive Field where
  | id
  | title
  | description
  | done
  | doneAt
  | dueDate
  | priority
  | percentDone
  | bucketId
  | position
  | kanbanPosition
  | created
  | updated
  | labels
  | assignees
  deriving DecidableEq

namespace Field

/-- The values of a field. -/
inductive Kind where
  | int
  | double
  | bool
  | text
  | date
  deriving DecidableEq

/-- All fields in their usual order. -/
def all : List Field :=
  [id, title, description, done, doneAt, dueDate, priority, percentDone, bucketId, position,
    kanbanPosition, created, updated, labels, assignees]

def name : Field → String
  | id => "id"
  | title => "title"
  | description => "description"
  | done => "done"
  | doneAt => "done_at"
  | dueDate => "due_date"
  | priority => "priority"
  | percentDone => "percent_done"
  | bucketId => "bucket_id"
  | position => "position"
  | kanbanPosition => "kanban_position"
  | created => "created"
  | updated => "updated"
  | labels => "labels"
  | assignees => "assignees"

/-- The field of a name in any letter case. -/
def ofName? (name : List Char) : Option Field :=
  all.find? fun f => Text.sameWord f.name.toList name

def kind : Field → Kind
  | id | priority | bucketId | labels => .int
  | percentDone | position | kanbanPosition => .double
  | done => .bool
  | title | description | assignees => .text
  | doneAt | dueDate | created | updated => .date

/-- The field may be missing from a task. -/
def isNullable : Field → Bool
  | description | doneAt | dueDate => true
  | _ => false

/-- The field is a relation between tasks and other rows. -/
def isRelation : Field → Bool
  | labels | assignees => true
  | _ => false

/-- The column of a field in the table of tasks, which goes by the name `t`. -/
def column? (f : Field) : Option String :=
  if f.isRelation then none else some ("t." ++ f.name)

end Field

end Kanban
