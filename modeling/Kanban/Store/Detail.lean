import Kanban.Store.Basic

/-!
# Rows with what belongs to them

A task is shown with its labels, its assigned users and its creator, a bucket with its creator and,
on a board, with tasks and their number.
-/

namespace Kanban

/-- A task with its labels in the order of their ids, its assigned users and its creator. -/
structure TaskDetail where
  task : Task
  labels : List Label
  assignees : List User
  createdBy : Option User

/-- The creator and the assigned users, by their ids. -/
def TaskDetail.userIds (d : TaskDetail) : List Int :=
  d.task.createdById :: d.assignees.map (·.id)

/-- A bucket with tasks. -/
structure BucketDetail where
  bucket : Bucket
  tasks : List TaskDetail := []
  count : Int := 0
  createdBy : Option User := none

namespace Store

/-- The labels of a task. -/
def labelsOf (s : Store) (taskId : Int) : List Label :=
  s.labels.filter fun l => s.labelLinks.contains ⟨taskId, l.id⟩

/-- The users assigned to a task. -/
def assigneesOf (s : Store) (taskId : Int) : List User :=
  s.users.filter fun u => s.assignments.contains ⟨taskId, u.id⟩

def detail (s : Store) (t : Task) : TaskDetail where
  task := t
  labels := s.labelsOf t.id
  assignees := s.assigneesOf t.id
  createdBy := s.user? t.createdById

/-- A bucket with its creator. -/
def bucketDetail (s : Store) (b : Bucket) : BucketDetail where
  bucket := b
  createdBy := s.user? b.createdById

end Store

end Kanban
