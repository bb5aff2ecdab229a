import Kanban.Projects
import Kanban.Tasks.Placement

/-!
# Tasks

Tasks are created in a bucket, read, changed, moved and deleted.  A task in the bucket for done
tasks is done: entering it marks a task done, leaving it reopens the task, and marking a task done
moves it there.  A task that enters another bucket needs room in it.
-/

namespace Kanban

structure NewTask where
  title : String := ""
  description : Option String := none
  bucketId : Option Int := none
  priority : Int := 0
  dueDate : Option Instant := none
  percentDone : Double := .zero

structure TaskUpdate where
  title : Option String := none
  description : Option String := none
  done : Option Bool := none
  priority : Option Int := none
  dueDate : Option Instant := none
  percentDone : Option Double := none

/-- A move of a task between two others of a scope. -/
structure TaskMove where
  bucketId : Option Int := none
  beforeId : Option Int := none
  afterId : Option Int := none
  scope : Scope := .kanban
  deriving DecidableEq

/-- The bucket in which the moved task is to be: the one given, or else its own. -/
def TaskMove.target (m : TaskMove) (t : Task) : Int := m.bucketId.getD t.bucketId

namespace Task

/-- The trimmed title of a task, which must not be blank. -/
def validTitle (title : String) : Except Failure String :=
  let title := Text.trimmed title
  if title.isEmpty then .error (.invalid .blankTaskTitle) else .ok title

def validPercent (x : Double) : Except Failure Double :=
  if Double.zero ≤ x ∧ x ≤ Double.ofInt 1 then .ok x else .error (.invalid .percentOutOfRange)

/-- The task is done or open; the time at which it was done changes only with that. -/
def markDone (t : Task) (done : Bool) (time : Instant) : Task :=
  if t.done = done then t else { t with done, doneAt := if done then some time else none }

/-- The task in another bucket, done if it enters the bucket for done tasks and open if it leaves
it. -/
def enterBucket (t : Task) (p : Project) (bucketId : Int) (time : Instant) : Task :=
  let entered := { t with bucketId }
  if p.doneBucketId ≠ 0 ∧ bucketId = p.doneBucketId then entered.markDone true time
  else if p.doneBucketId ≠ 0 ∧ t.bucketId = p.doneBucketId then entered.markDone false time
  else entered

/-- The task with the given plain fields changed. -/
def patched (t : Task) (patch : TaskUpdate) : Except Failure Task := do
  let title ← renewed patch.title t.title validTitle
  let percentDone ← renewed patch.percentDone t.percentDone validPercent
  .ok
    { t with
      title, percentDone
      description := patch.description <|> t.description
      priority := patch.priority.getD t.priority
      dueDate := patch.dueDate <|> t.dueDate }

end Task

namespace Store

/-- Adds a task to a bucket, with keys that grow with its id. -/
def insertTask (s : Store) (p : Project) (b : Bucket) (creator : User) (new : NewTask)
    (done : Bool) : Except Failure (Task × Store) := do
  let title ← Task.validTitle new.title
  let percentDone ← Task.validPercent new.percentDone
  let key := Position.initial (s.lastTask + 1) .zero
  .ok (s.addTask {
    title, percentDone
    description := new.description
    done := done || (p.doneBucketId ≠ 0 && b.id = p.doneBucketId)
    dueDate := new.dueDate
    priority := new.priority
    projectId := p.id
    bucketId := b.id
    position := key
    kanbanPosition := key
    createdById := creator.id })

/-- The bucket that is asked for, or else the default one. -/
def bucketForNew (s : Store) (p : Project) (asked : Option Int) : Except Failure Int :=
  match asked with
  | some id => .ok id
  | none => s.resolveBucket p none

/-- Creates a task in the given bucket or in the default one. -/
def createTask (s : Store) (actor projectId : Int) (new : NewTask) :
    Except Failure (TaskDetail × Store) := do
  let p ← s.projectFor .write actor projectId
  let creator ← s.actor actor
  let bucketId ← s.bucketForNew p new.bucketId
  let b ← s.getBucket p.id bucketId
  s.ensureCapacity b
  let (t, s) ← s.insertTask p b creator new false
  .ok (s.detail t, s)

def readTask (s : Store) (actor id : Int) : Except Failure TaskDetail := do
  let t ← s.getTask id
  let _ ← s.projectFor .read actor t.projectId
  .ok (s.detail t)

/-- A key behind the other tasks of a bucket. -/
def keyAtEnd (s : Store) (bucketId moving : Int) : Double :=
  Position.allocate (s.tailKey ⟨.kanban, bucketId⟩ moving) none

/-- The bucket for a task that is marked done or open. -/
def bucketForDone (s : Store) (p : Project) (t : Task) (done : Bool) : Except Failure Int :=
  if p.doneBucketId = 0 then .ok t.bucketId
  else if done then .ok p.doneBucketId
  else if t.bucketId = p.doneBucketId then s.resolveBucket p none
  else .ok t.bucketId

/-- The task marked done or open, in the bucket for that. -/
def withDone (s : Store) (p : Project) (t : Task) (done : Bool) : Except Failure Task := do
  let target ← s.bucketForDone p t done
  if target = t.bucketId then .ok (t.markDone done s.now)
  else
    let b ← s.getBucket p.id target
    s.ensureCapacity b
    let t := { t with kanbanPosition := s.keyAtEnd target t.id }
    .ok ((t.enterBucket p target s.now).markDone done s.now)

/-- The task with the given fields changed, in the bucket for that. -/
def withPatch (s : Store) (p : Project) (t : Task) (patch : TaskUpdate) : Except Failure Task := do
  let t ← t.patched patch
  renewed patch.done t (s.withDone p t)

/-- Changes the fields of a task that are given. -/
def updateTask (s : Store) (actor id : Int) (patch : TaskUpdate) :
    Except Failure (TaskDetail × Store) := do
  let t ← s.getTask id
  let p ← s.projectFor .write actor t.projectId
  let t ← s.withPatch p t patch
  let t := { t with updated := s.now }
  .ok (s.detail t, s.tick.setTask t)

def deleteTask (s : Store) (actor id : Int) : Except Failure Store := do
  let t ← s.getTask id
  let _ ← s.projectFor .write actor t.projectId
  .ok (s.removeTask t.id)

/-- A task may stay in its bucket, and enter another one of its project that has room. -/
def checkEntry (s : Store) (p : Project) (t : Task) (target : Int) : Except Failure Unit :=
  if target = t.bucketId then .ok ()
  else do
    let b ← s.getBucket p.id target
    s.ensureCapacity b

/-- The task in another bucket, behind the tasks there when only its key in the list is known. -/
def rehoused (s : Store) (p : Project) (t : Task) (scope : Scope) (target : Int) : Task :=
  if target = t.bucketId then t
  else
    let placed :=
      match scope with
      | .kanban => t
      | .list => { t with kanbanPosition := s.keyAtEnd target t.id }
    placed.enterBucket p target s.now

/-- The moved task with its new key, in the bucket in which it is to be. -/
def moved (s : Store) (p : Project) (t : Task) (m : TaskMove) (key : Double) : Task :=
  { s.rehoused p (t.withKey m.scope key) m.scope (m.target t) with updated := s.now }

/-- Moves a task between neighbors, into another bucket, or both. -/
def moveTask (s : Store) (actor id : Int) (m : TaskMove) :
    Except Failure (TaskDetail × Store) := do
  let t ← s.getTask id
  let p ← s.projectFor .write actor t.projectId
  s.checkEntry p t (m.target t)
  let (key, s) ← s.place (.forMove p (m.target t) m.scope) t.id m.beforeId m.afterId
  let moved := s.moved p t m key
  .ok (s.detail moved, s.tick.setTask moved)

end Store

end Kanban
