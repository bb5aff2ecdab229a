import Kanban.Store.Basic

/-!
# Direct writes

Writes to single rows that no operation makes, with none of its checks.  The store itself refuses
a key that is not a number, links to rows that do not exist, and a link that exists already.
-/

namespace Kanban

/-- A direct write. -/
inductive Edit where
  | taskPosition (id : Int) (x : Double)
  | taskKanbanPosition (id : Int) (x : Double)
  | bucketPosition (id : Int) (x : Double)
  | taskBucket (id bucketId : Int)
  | taskCreator (id userId : Int)
  | bucketCreator (id userId : Int)
  | projectDefaultBucket (id bucketId : Int)
  | projectDoneBucket (id bucketId : Int)
  | removeBucket (id : Int)
  | addLabel (title hexColor : String)
  | linkLabel (taskId labelId : Int)
  | assign (taskId userId : Int)
  | share (projectId userId right : Int)

namespace Store

/-- Changes the task with an id; the number of changed rows comes first. -/
def editTask (s : Store) (id : Int) (f : Task → Task) : Nat × Store :=
  match s.task? id with
  | some t => (1, s.setTask (f t))
  | none => (0, s)

def editBucket (s : Store) (id : Int) (f : Bucket → Bucket) : Nat × Store :=
  match s.bucket? id with
  | some b => (1, s.setBucket (f b))
  | none => (0, s)

def editProject (s : Store) (id : Int) (f : Project → Project) : Nat × Store :=
  match s.project? id with
  | some p => (1, s.setProject (f p))
  | none => (0, s)

/-- A key is written unless it is not a number and there is a row for it. -/
def unlessNaN (x : Double) (result : Nat × Store) : Option (Nat × Store) :=
  if x.isNaN ∧ 0 < result.1 then none else some result

/-- Writes directly to the store; without an answer the store refuses. -/
def edit (s : Store) : Edit → Option (Nat × Store)
  | .taskPosition id x => unlessNaN x (s.editTask id (·.withKey .list x))
  | .taskKanbanPosition id x => unlessNaN x (s.editTask id (·.withKey .kanban x))
  | .bucketPosition id x => unlessNaN x (s.editBucket id ({ · with position := x }))
  | .taskBucket id bucketId => some (s.editTask id ({ · with bucketId }))
  | .taskCreator id userId => some (s.editTask id ({ · with createdById := userId }))
  | .bucketCreator id userId => some (s.editBucket id ({ · with createdById := userId }))
  | .projectDefaultBucket id bucketId =>
    some (s.editProject id ({ · with defaultBucketId := bucketId }))
  | .projectDoneBucket id bucketId =>
    some (s.editProject id ({ · with doneBucketId := bucketId }))
  | .removeBucket id =>
    some ((s.buckets.filter (·.id == id)).length, s.removeBucket id)
  | .addLabel title hexColor => some (1, (s.addLabel title hexColor 1).2)
  | .linkLabel taskId labelId =>
    if (s.task? taskId).isSome ∧ s.labels.any (·.id == labelId) ∧
        !s.labelLinks.contains ⟨taskId, labelId⟩ then
      some (1, s.linkLabel taskId labelId)
    else none
  | .assign taskId userId =>
    if (s.task? taskId).isSome ∧ (s.user? userId).isSome ∧
        !s.assignments.contains ⟨taskId, userId⟩ then
      some (1, { s with assignments := s.assignments ++ [⟨taskId, userId⟩] })
    else none
  | .share projectId userId right =>
    if (s.project? projectId).isSome ∧ (s.user? userId).isSome ∧
        (s.share? projectId userId).isNone then
      some (1, s.putShare ⟨projectId, userId, right⟩)
    else none

/-! ### Rows in the order of their keys -/

def sharesInOrder (s : Store) : List Share :=
  s.shares.mergeSort fun a b =>
    (compare a.projectId b.projectId |>.then (compare a.userId b.userId)).isLE

def labelLinksInOrder (s : Store) : List LabelLink :=
  s.labelLinks.mergeSort fun a b =>
    (compare a.taskId b.taskId |>.then (compare a.labelId b.labelId)).isLE

def assignmentsInOrder (s : Store) : List Assignment :=
  s.assignments.mergeSort fun a b =>
    (compare a.taskId b.taskId |>.then (compare a.userId b.userId)).isLE

end Store

end Kanban
