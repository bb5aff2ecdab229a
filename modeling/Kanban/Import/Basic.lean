import Kanban.Import.Checklist
import Kanban.Import.Color
import Kanban.Tasks.Basic

/-!
# Import of projects

Whole projects with buckets, tasks and labels are added at once: all of them or none.  Labels that
agree in title and color become one label.  The limits of buckets are kept, but do not bind here.
-/

namespace Kanban

structure LabelImport where
  title : String := ""
  /-- The name of a color. -/
  color : String := ""

structure TaskImport where
  title : String := ""
  description : Option String := none
  dueDate : Option Instant := none
  done : Bool := false
  labels : List LabelImport := []
  checklists : List Checklist := []

structure BucketImport where
  title : String := ""
  limit : Int := 0
  tasks : List TaskImport := []

structure ProjectImport where
  title : String := ""
  description : String := ""
  buckets : List BucketImport := []

/-- The labels added by an import: title, color and id. -/
abbrev LabelIndex := List ((String × String) × Int)

namespace ProjectImport

/-- The buckets to add: a project never goes without one. -/
def bucketsToAdd (p : ProjectImport) : List BucketImport :=
  if p.buckets.isEmpty then [{ title := Project.firstBucketTitle }] else p.buckets

end ProjectImport

namespace Store

/-- The id of a label, which is added if this import has not met it yet. -/
def resolveLabel (s : Store) (index : LabelIndex) (owner : User) (l : LabelImport) :
    Int × LabelIndex × Store :=
  let key := (Text.trimmed l.title, Color.hex l.color)
  match index.lookup key with
  | some id => (id, index, s)
  | none =>
    let (label, s) := s.addLabel key.1 key.2 owner.id
    (label.id, index ++ [(key, label.id)], s)

/-- Puts labels on a task. -/
def importLabels (s : Store) (index : LabelIndex) (owner : User) (taskId : Int) :
    List LabelImport → LabelIndex × Store
  | [] => (index, s)
  | l :: ls =>
    let (id, index, s) := s.resolveLabel index owner l
    importLabels (s.linkLabel taskId id) index owner taskId ls

/-- Adds tasks to a bucket. -/
def importTasks (s : Store) (index : LabelIndex) (owner : User) (p : Project) (b : Bucket) :
    List TaskImport → Except Failure (LabelIndex × Store)
  | [] => .ok (index, s)
  | t :: ts => do
    let new : NewTask := {
      title := t.title
      description := Checklist.describe t.description t.checklists
      bucketId := some b.id
      dueDate := t.dueDate }
    let (task, s) ← s.insertTask p b owner new t.done
    let (index, s) := s.importLabels index owner task.id t.labels
    importTasks s index owner p b ts

/-- Adds buckets with their tasks to a project. -/
def importBuckets (s : Store) (index : LabelIndex) (owner : User) (p : Project) :
    List BucketImport → Except Failure (LabelIndex × Store)
  | [] => .ok (index, s)
  | b :: bs => do
    let (bucket, s) ← s.insertBucket p.id { title := b.title, limit := b.limit } owner
    let (index, s) ← s.importTasks index owner p bucket b.tasks
    importBuckets s index owner p bs

/-- Adds projects with all that belongs to them. -/
def importProjects (s : Store) (index : LabelIndex) (owner : User) :
    List ProjectImport → Except Failure (List Project × Store)
  | [] => .ok ([], s)
  | i :: is => do
    let (p, s) ← s.insertProject owner { title := i.title, description := i.description }
    let (index, s) ← s.importBuckets index owner p i.bucketsToAdd
    let (ps, s) ← importProjects s index owner is
    .ok (p :: ps, s)

/-- Imports projects for a user, who owns them. -/
def importAll (s : Store) (actor : Int) (projects : List ProjectImport) :
    Except Failure (List Project × Store) := do
  let owner ← s.actor actor
  s.importProjects [] owner projects

end Store

end Kanban
