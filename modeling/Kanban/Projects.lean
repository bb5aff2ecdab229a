import Kanban.Buckets

/-!
# Projects

A project is created together with its first bucket.  Its owner and other users with the right to
write change it; users with the right of an admin share it.
-/

namespace Kanban

structure NewProject where
  title : String := ""
  description : String := ""

structure ProjectUpdate where
  title : Option String := none
  description : Option String := none
  /-- Zero unsets the bucket. -/
  defaultBucketId : Option Int := none
  /-- Zero unsets the bucket. -/
  doneBucketId : Option Int := none

/-- A right to be granted to a user. -/
structure NewShare where
  userId : Int := 0
  right : Int := 0

/-- The title of the bucket that a project starts with. -/
def Project.firstBucketTitle : String := "Backlog"

/-- The trimmed title of a project, which must not be blank. -/
def Project.validTitle (title : String) : Except Failure String :=
  let title := Text.trimmed title
  if title.isEmpty then .error (.invalid .blankProjectTitle) else .ok title

/-- The right that is to be granted. -/
def NewShare.validRight (h : NewShare) : Except Failure Right :=
  match Right.ofValue? h.right with
  | some r => .ok r
  | none => .error (.invalid (.unknownRight h.right))

namespace Store

/-- Adds a project without buckets. -/
def insertProject (s : Store) (owner : User) (new : NewProject) :
    Except Failure (Project × Store) := do
  let title ← Project.validTitle new.title
  .ok (s.addProject title new.description owner.id)

def createProject (s : Store) (actor : Int) (new : NewProject) :
    Except Failure (Project × Store) := do
  let owner ← s.actor actor
  let (p, s) ← s.insertProject owner new
  let (_, s) ← s.insertBucket p.id { title := Project.firstBucketTitle } owner
  .ok (p, s)

def readProject (s : Store) (actor id : Int) : Except Failure Project :=
  s.projectFor .read actor id

/-- The bucket to refer to: one of the project, or none. -/
def bucketRef (s : Store) (projectId bucketId : Int) : Except Failure Int := do
  if bucketId = 0 then .ok 0
  else
    let b ← s.getBucket projectId bucketId
    .ok b.id

/-- Changes the fields of a project that are given. -/
def updateProject (s : Store) (actor id : Int) (patch : ProjectUpdate) :
    Except Failure (Project × Store) := do
  let p ← s.projectFor .write actor id
  let title ← renewed patch.title p.title Project.validTitle
  let defaultBucketId ← renewed patch.defaultBucketId p.defaultBucketId (s.bucketRef p.id)
  let doneBucketId ← renewed patch.doneBucketId p.doneBucketId (s.bucketRef p.id)
  let p : Project :=
    { p with
      title, defaultBucketId, doneBucketId
      description := patch.description.getD p.description
      updated := s.now }
  .ok (p, s.tick.setProject p)

/-- Grants a right on a project to a user. -/
def shareProject (s : Store) (actor id : Int) (h : NewShare) : Except Failure Store := do
  let right ← h.validRight
  let p ← s.getProject id
  if s.allows actor p .admin then
    let u ← s.getUser h.userId
    .ok (s.tick.putShare ⟨p.id, u.id, right.value⟩)
  else .error .forbidden

end Store

end Kanban
