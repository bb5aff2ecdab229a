import Kanban.Calendar.Instant
import Kanban.Double.Basic

/-!
# Rows of the store

What is stored of users, projects, buckets, tasks and labels, and of the links between them.  Every
row but a link has an id; references to other rows are ids, and `0` in a bucket reference of a
project means that there is none.
-/

namespace Kanban

/-- An account. -/
structure User where
  id : Int
  username : String
  name : String
  created : Instant
  deriving DecidableEq

/-- A collection of buckets and tasks. -/
structure Project where
  id : Int
  title : String
  description : String
  ownerId : Int
  /-- The bucket for new tasks. -/
  defaultBucketId : Int := 0
  /-- The bucket whose tasks are done. -/
  doneBucketId : Int := 0
  created : Instant
  updated : Instant
  deriving DecidableEq

/-- The right on a project that was granted to a user. -/
structure Share where
  projectId : Int
  userId : Int
  right : Int
  deriving DecidableEq

/-- A column of a board. -/
structure Bucket where
  id : Int := 0
  title : String := ""
  projectId : Int := 0
  /-- How many tasks may be in the bucket; `0` means any number. -/
  limit : Int := 0
  position : Double := .zero
  createdById : Int := 0
  created : Instant := default
  updated : Instant := default
  deriving DecidableEq

/-- A task; `position` orders it in the list of its project and `kanbanPosition` in its bucket. -/
structure Task where
  id : Int := 0
  title : String := ""
  description : Option String := none
  done : Bool := false
  doneAt : Option Instant := none
  dueDate : Option Instant := none
  priority : Int := 0
  percentDone : Double := .zero
  projectId : Int := 0
  bucketId : Int := 0
  position : Double := .zero
  kanbanPosition : Double := .zero
  createdById : Int := 0
  created : Instant := default
  updated : Instant := default
  deriving DecidableEq

/-- A colored mark on tasks. -/
structure Label where
  id : Int
  title : String
  hexColor : String
  createdById : Int
  created : Instant
  updated : Instant
  deriving DecidableEq

/-- The task carries the label. -/
structure LabelLink where
  taskId : Int
  labelId : Int
  deriving DecidableEq

/-- The user is assigned to the task. -/
structure Assignment where
  taskId : Int
  userId : Int
  deriving DecidableEq

/-- A bucket as it is kept: zero has no sign. -/
def Bucket.stored (b : Bucket) : Bucket := { b with position := b.position.unsignZero }

/-- A task as it is kept: zero has no sign. -/
def Task.stored (t : Task) : Task :=
  { t with
    percentDone := t.percentDone.unsignZero
    position := t.position.unsignZero
    kanbanPosition := t.kanbanPosition.unsignZero }

/-- The two orders of tasks. -/
inductive Scope where
  /-- By `kanbanPosition` inside a bucket. -/
  | kanban
  /-- By `position` in the list of a project. -/
  | list
  deriving DecidableEq

/-- The scope as it is written in requests. -/
def Scope.name : Scope → String
  | kanban => "kanban"
  | list => "list"

namespace Task

/-- The key by which the scope orders the task. -/
def key (t : Task) : Scope → Double
  | .kanban => t.kanbanPosition
  | .list => t.position

/-- The task with another key in one scope. -/
def withKey (t : Task) (scope : Scope) (x : Double) : Task :=
  match scope with
  | .kanban => { t with kanbanPosition := x }
  | .list => { t with position := x }

end Task

/-- Smaller key first; equal keys by id. -/
def keyLe (x : Double) (i : Int) (y : Double) (j : Int) : Bool :=
  decide (x < y) || (!decide (y < x) && decide (i ≤ j))

end Kanban
