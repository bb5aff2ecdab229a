import Kanban.Import.Basic
import Kanban.Listing.Query
import Kanban.Users

/-!
# Operations

All that users do with the store, each with the id of the user who acts, and what it answers.  A
failing operation leaves the store as it was (`Operation.run`).
-/

namespace Kanban

inductive Operation where
  | createUser (new : NewUser)
  | createProject (actor : Int) (new : NewProject)
  | readProject (actor project : Int)
  | updateProject (actor project : Int) (patch : ProjectUpdate)
  | shareProject (actor project : Int) (share : NewShare)
  | readBoard (actor project : Int) (options : ListOptions)
  | listBuckets (actor project : Int)
  | defaultBucket (project : Int)
  | createBucket (actor project : Int) (new : NewBucket)
  | readBucket (actor project bucket : Int)
  | updateBucket (actor project bucket : Int) (patch : BucketUpdate)
  | deleteBucket (actor project bucket : Int)
  | listTasks (actor project : Int) (options : ListOptions)
  | createTask (actor project : Int) (new : NewTask)
  | readTask (actor task : Int)
  | updateTask (actor task : Int) (patch : TaskUpdate)
  | deleteTask (actor task : Int)
  | moveTask (actor task : Int) (move : TaskMove)
  | importProjects (actor : Int) (projects : List ProjectImport)

/-- What an operation answers. -/
inductive Answer where
  | user (u : User)
  | project (p : Project)
  | projects (ps : List Project)
  | bucket (b : BucketDetail)
  | buckets (bs : List BucketDetail)
  | bucketId (id : Int)
  | task (t : TaskDetail)
  | page (p : TaskPage)
  | shared
  | deleted

namespace Operation

/-- The operation on a store. -/
def run (setup : Setup) (s : Store) : Operation → Except Failure (Answer × Store)
  | createUser new => do
    let (u, s) ← s.createUser new
    .ok (.user u, s)
  | createProject actor new => do
    let (p, s) ← s.createProject actor new
    .ok (.project p, s)
  | readProject actor project => do
    let p ← s.readProject actor project
    .ok (.project p, s)
  | updateProject actor project patch => do
    let (p, s) ← s.updateProject actor project patch
    .ok (.project p, s)
  | shareProject actor project share => do
    let s ← s.shareProject actor project share
    .ok (.shared, s)
  | readBoard actor project options => do
    let bs ← s.readBoard setup actor project options
    .ok (.buckets bs, s)
  | listBuckets actor project => do
    let bs ← s.listBuckets actor project
    .ok (.buckets bs, s)
  | defaultBucket project => do
    let id ← s.defaultBucket project
    .ok (.bucketId id, s)
  | createBucket actor project new => do
    let (b, s) ← s.createBucket actor project new
    .ok (.bucket b, s)
  | readBucket actor project bucket => do
    let b ← s.readBucket actor project bucket
    .ok (.bucket b, s)
  | updateBucket actor project bucket patch => do
    let (b, s) ← s.updateBucket actor project bucket patch
    .ok (.bucket b, s)
  | deleteBucket actor project bucket => do
    let s ← s.deleteBucket actor project bucket
    .ok (.deleted, s)
  | listTasks actor project options => do
    let p ← s.listTasks setup actor project options
    .ok (.page p, s)
  | createTask actor project new => do
    let (t, s) ← s.createTask actor project new
    .ok (.task t, s)
  | readTask actor task => do
    let t ← s.readTask actor task
    .ok (.task t, s)
  | updateTask actor task patch => do
    let (t, s) ← s.updateTask actor task patch
    .ok (.task t, s)
  | deleteTask actor task => do
    let s ← s.deleteTask actor task
    .ok (.deleted, s)
  | moveTask actor task move => do
    let (t, s) ← s.moveTask actor task move
    .ok (.task t, s)
  | importProjects actor projects => do
    let (ps, s) ← s.importAll actor projects
    .ok (.projects ps, s)

/-- The store after an operation, which leaves it as it was if it fails. -/
def after (setup : Setup) (s : Store) (op : Operation) : Store :=
  match op.run setup s with
  | .ok (_, s) => s
  | .error _ => s

/-- What an operation checks before it looks at the store. -/
def precheck (setup : Setup) (now : Instant) : Operation → Except Failure Unit
  | createUser new => do
    let _ ← new.validName
  | shareProject _ _ share => do
    let _ ← share.validRight
  | listTasks _ _ options => do
    let _ ← Plan.forProject setup now options
  | _ => .ok ()

end Operation

end Kanban
