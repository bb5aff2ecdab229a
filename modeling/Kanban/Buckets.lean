import Kanban.Access
import Kanban.Position
import Kanban.Store.Detail
import Kanban.Text.Basic

/-!
# Buckets

Buckets are created at the end of the board or at a given position, changed, and deleted.  The last
bucket of a project stays.  When a bucket is deleted, its project no longer refers to it and its
tasks move behind those of a fallback bucket (`Store.moveAllTasks`).
-/

namespace Kanban

structure NewBucket where
  title : String := ""
  limit : Int := 0
  /-- Zero puts the bucket at the end. -/
  position : Double := .zero

structure BucketUpdate where
  title : Option String := none
  limit : Option Int := none
  position : Option Double := none

namespace Bucket

/-- The trimmed title of a bucket, which must not be blank. -/
def validTitle (title : String) : Except Failure String :=
  let title := Text.trimmed title
  if title.isEmpty then .error (.invalid .blankBucketTitle) else .ok title

def validLimit (limit : Int) : Except Failure Int :=
  if limit < 0 then .error (.invalid .negativeLimit) else .ok limit

def validPosition (position : Double) : Except Failure Double :=
  if position.isFinite then .ok position else .error (.invalid .positionNotFinite)

/-- The bucket with the given fields changed. -/
def patched (b : Bucket) (patch : BucketUpdate) : Except Failure Bucket := do
  let title ← renewed patch.title b.title validTitle
  let limit ← renewed patch.limit b.limit validLimit
  let position ← renewed patch.position b.position validPosition
  .ok { b with title, limit, position }

end Bucket

namespace Store

/-- The position of a new bucket: the one given with it unless that is zero, else behind the last
bucket of the project. -/
def newBucketPosition (s : Store) (projectId : Int) (given : Double) : Double :=
  if given.isZero then
    match greatest? ((s.buckets.filter (·.projectId == projectId)).map (·.position)) with
    | some tail => Position.allocate (some tail) none
    | none => Position.initial (s.lastBucket + 1) .zero
  else given

/-- Adds a bucket to a project. -/
def insertBucket (s : Store) (projectId : Int) (new : NewBucket) (creator : User) :
    Except Failure (Bucket × Store) := do
  let title ← Bucket.validTitle new.title
  let limit ← Bucket.validLimit new.limit
  let given ← Bucket.validPosition new.position
  .ok (s.addBucket {
    title, projectId, limit, position := s.newBucketPosition projectId given,
    createdById := creator.id })

/-- The buckets of a project in the order of the board. -/
def listBuckets (s : Store) (actor projectId : Int) : Except Failure (List BucketDetail) := do
  let p ← s.projectFor .read actor projectId
  .ok ((s.bucketsOf p.id).map fun b => { bucket := b })

def readBucket (s : Store) (actor projectId id : Int) : Except Failure BucketDetail := do
  let p ← s.projectFor .read actor projectId
  let b ← s.getBucket p.id id
  .ok (s.bucketDetail b)

def createBucket (s : Store) (actor projectId : Int) (new : NewBucket) :
    Except Failure (BucketDetail × Store) := do
  let p ← s.projectFor .write actor projectId
  let creator ← s.actor actor
  let (b, s) ← s.insertBucket p.id new creator
  .ok ({ bucket := b, createdBy := some creator }, s)

/-- Changes title, limit and position of a bucket, as far as they are given. -/
def updateBucket (s : Store) (actor projectId id : Int) (patch : BucketUpdate) :
    Except Failure (BucketDetail × Store) := do
  let p ← s.projectFor .write actor projectId
  let b ← s.getBucket p.id id
  let b ← b.patched patch
  let b := { b with updated := s.now }
  .ok (s.bucketDetail b, s.tick.setBucket b)

/-! ### Default and fallback buckets -/

/-- The configured default bucket, else the first bucket on the board, in both cases other than
`excluded`. -/
def resolveBucket (s : Store) (p : Project) (excluded : Option Int) : Except Failure Int :=
  if p.defaultBucketId ≠ 0 ∧ some p.defaultBucketId ≠ excluded then .ok p.defaultBucketId
  else
    match ((s.bucketsOf p.id).filter fun b => b.id != excluded.getD 0).head? with
    | some b => .ok b.id
    | none => .error (.bucketNotFound 0)

/-- The bucket for new tasks of a project. -/
def defaultBucket (s : Store) (projectId : Int) : Except Failure Int := do
  let p ← s.getProject projectId
  s.resolveBucket p none

/-- A limited bucket has room for one more task. -/
def ensureCapacity (s : Store) (b : Bucket) : Except Failure Unit :=
  if 0 < b.limit ∧ b.limit ≤ (s.tasksIn .kanban b.id).length then
    .error (.bucketFull b.id b.limit)
  else .ok ()

/-! ### Deletion -/

/-- Appends tasks to a bucket one after the other; the bucket of done tasks makes them done. -/
def appendTasks (s : Store) (target : Int) (intoDone : Bool) (time : Instant) :
    (tail : Option Double) → List Task → Store
  | _, [] => s
  | tail, t :: ts =>
    let key := Position.allocate tail none
    let moved : Task :=
      { t with
        bucketId := target
        kanbanPosition := key
        done := intoDone || t.done
        doneAt := if intoDone && !t.done then some time else t.doneAt
        updated := time }
    appendTasks (s.setTask moved) target intoDone time (some key) ts

/-- Moves all tasks of one bucket behind those of another one, in their order. -/
def moveAllTasks (s : Store) (p : Project) (source target : Int) : Store :=
  let moving := s.orderedIn .kanban source
  if moving.isEmpty then s
  else
    let tail := greatest? ((s.tasksIn .kanban target).map (·.kanbanPosition))
    appendTasks s.tick target (decide (target = p.doneBucketId)) s.now tail moving

/-- The project without references to a bucket. -/
def clearBucketRefs (p : Project) (bucketId : Int) : Project :=
  { p with
    defaultBucketId := if p.defaultBucketId = bucketId then 0 else p.defaultBucketId
    doneBucketId := if p.doneBucketId = bucketId then 0 else p.doneBucketId }

/-- The project of a bucket loses its references to the bucket, if it has any. -/
def dropBucketRefs (s : Store) (p : Project) (bucketId : Int) : Store :=
  if p.defaultBucketId = bucketId ∨ p.doneBucketId = bucketId then
    s.tick.setProject { clearBucketRefs p bucketId with updated := s.now }
  else s

/-- Deletes a bucket, but not its tasks. -/
def deleteBucket (s : Store) (actor projectId id : Int) : Except Failure Store := do
  let p ← s.projectFor .write actor projectId
  let b ← s.getBucket p.id id
  if (s.buckets.filter (·.projectId == p.id)).length ≤ 1 then
    .error (.lastBucket b.id p.id)
  else
    let cleared := clearBucketRefs p b.id
    let s := s.dropBucketRefs p b.id
    let fallback ← s.resolveBucket cleared (some b.id)
    .ok ((s.moveAllTasks cleared b.id fallback).removeBucket b.id)

end Store

end Kanban
