import Kanban.Failure
import Kanban.Store.Row

/-!
# The store

Tables of rows with unique ids, the last id given out in each table, and a clock.  Rows are looked
up by id and written by the few functions of this module; new rows get the next id, ids are never
given out again, and every reading of the clock is later than the ones before.
-/

namespace Kanban

structure Store where
  users : List User := []
  projects : List Project := []
  shares : List Share := []
  buckets : List Bucket := []
  tasks : List Task := []
  labels : List Label := []
  labelLinks : List LabelLink := []
  assignments : List Assignment := []
  lastUser : Nat := 0
  lastProject : Nat := 0
  lastBucket : Nat := 0
  lastTask : Nat := 0
  lastLabel : Nat := 0
  clock : Nat := 0

namespace Store

/-! ### Clock -/

/-- The instant from which the clock counts milliseconds. -/
def origin : Int := 1763608646

/-- What the clock shows: later than every instant read before. -/
def now (s : Store) : Instant where
  seconds := origin + (s.clock / 1000 : Nat)
  nanos := s.clock % 1000 * 1000000

/-- The store after a reading of the clock. -/
def tick (s : Store) : Store := { s with clock := s.clock + 1 }

/-! ### Reading rows -/

def user? (s : Store) (id : Int) : Option User := s.users.find? (·.id == id)

def project? (s : Store) (id : Int) : Option Project := s.projects.find? (·.id == id)

def bucket? (s : Store) (id : Int) : Option Bucket := s.buckets.find? (·.id == id)

def task? (s : Store) (id : Int) : Option Task := s.tasks.find? (·.id == id)

def share? (s : Store) (projectId userId : Int) : Option Share :=
  s.shares.find? fun h => h.projectId == projectId && h.userId == userId

def getUser (s : Store) (id : Int) : Except Failure User :=
  match s.user? id with
  | some u => .ok u
  | none => .error (.userNotFound id)

def getProject (s : Store) (id : Int) : Except Failure Project :=
  match s.project? id with
  | some p => .ok p
  | none => .error (.projectNotFound id)

/-- A bucket of the given project; one of another project does not exist there. -/
def getBucket (s : Store) (projectId id : Int) : Except Failure Bucket :=
  match s.buckets.find? fun b => b.id == id && b.projectId == projectId with
  | some b => .ok b
  | none => .error (.bucketNotFound id)

def getTask (s : Store) (id : Int) : Except Failure Task :=
  match s.task? id with
  | some t => .ok t
  | none => .error (.taskNotFound id)

/-- The buckets of a project in the order of the board. -/
def bucketsOf (s : Store) (projectId : Int) : List Bucket :=
  (s.buckets.filter (·.projectId == projectId)).mergeSort
    fun a b => keyLe a.position a.id b.position b.id

/-- The tasks in a scope: those of a bucket or those of a project. -/
def tasksIn (s : Store) (scope : Scope) (id : Int) : List Task :=
  match scope with
  | .kanban => s.tasks.filter (·.bucketId == id)
  | .list => s.tasks.filter (·.projectId == id)

/-- The tasks in a scope in its order. -/
def orderedIn (s : Store) (scope : Scope) (id : Int) : List Task :=
  (s.tasksIn scope id).mergeSort fun a b => keyLe (a.key scope) a.id (b.key scope) b.id

/-- The greatest of the keys, if there is one. -/
def greatest? : List Double → Option Double
  | [] => none
  | x :: xs =>
    match greatest? xs with
    | none => some x
    | some y => if x < y then some y else some x

/-! ### Writing rows -/

/-- The new user with the next id. -/
def addUser (s : Store) (username name : String) : User × Store :=
  let user : User := ⟨s.lastUser + 1, username, name, s.now⟩
  (user, { s.tick with users := s.users ++ [user], lastUser := s.lastUser + 1 })

def addProject (s : Store) (title description : String) (ownerId : Int) : Project × Store :=
  let project : Project := {
    id := s.lastProject + 1, title, description, ownerId, created := s.now, updated := s.now }
  (project, { s.tick with projects := s.projects ++ [project], lastProject := s.lastProject + 1 })

/-- The bucket with the next id in place of its own. -/
def addBucket (s : Store) (b : Bucket) : Bucket × Store :=
  let bucket : Bucket :=
    { b.stored with id := s.lastBucket + 1, created := s.now, updated := s.now }
  (bucket, { s.tick with buckets := s.buckets ++ [bucket], lastBucket := s.lastBucket + 1 })

/-- The task with the next id in place of its own; one that is done is so from now on. -/
def addTask (s : Store) (t : Task) : Task × Store :=
  let task : Task :=
    { t.stored with
      id := s.lastTask + 1, created := s.now, updated := s.now,
      doneAt := if t.done then some s.now else none }
  (task, { s.tick with tasks := s.tasks ++ [task], lastTask := s.lastTask + 1 })

def addLabel (s : Store) (title hexColor : String) (createdById : Int) : Label × Store :=
  let label : Label := {
    id := s.lastLabel + 1, title, hexColor, createdById, created := s.now, updated := s.now }
  (label, { s.tick with labels := s.labels ++ [label], lastLabel := s.lastLabel + 1 })

/-- The task carries the label, once. -/
def linkLabel (s : Store) (taskId labelId : Int) : Store :=
  if s.labelLinks.contains ⟨taskId, labelId⟩ then s
  else { s with labelLinks := s.labelLinks ++ [⟨taskId, labelId⟩] }

/-- Grants a right in place of the one that the user had. -/
def putShare (s : Store) (h : Share) : Store :=
  if (s.share? h.projectId h.userId).isSome then
    { s with
      shares := s.shares.map fun x =>
        if x.projectId == h.projectId && x.userId == h.userId then h else x }
  else { s with shares := s.shares ++ [h] }

/-- Puts the project in the place of the one with its id. -/
def setProject (s : Store) (p : Project) : Store :=
  { s with projects := s.projects.map fun x => if x.id == p.id then p else x }

def setBucket (s : Store) (b : Bucket) : Store :=
  { s with buckets := s.buckets.map fun x => if x.id == b.id then b.stored else x }

def setTask (s : Store) (t : Task) : Store :=
  { s with tasks := s.tasks.map fun x => if x.id == t.id then t.stored else x }

def removeBucket (s : Store) (id : Int) : Store :=
  { s with buckets := s.buckets.filter (·.id != id) }

/-- Removes a task with its links. -/
def removeTask (s : Store) (id : Int) : Store :=
  { s with
    tasks := s.tasks.filter (·.id != id)
    labelLinks := s.labelLinks.filter (·.taskId != id)
    assignments := s.assignments.filter (·.taskId != id) }

end Store

end Kanban
