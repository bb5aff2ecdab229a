import Kanban.Json.Value
import Kanban.Operation

/-!
# Answers as JSON
-/

namespace Kanban

open Json

def User.json (u : User) : Json :=
  object [("id", int u.id), ("username", text u.username), ("name", text u.name),
    ("created", ofInstant u.created)]

def Project.json (p : Project) : Json :=
  object [("id", int p.id), ("title", text p.title), ("description", text p.description),
    ("owner_id", int p.ownerId), ("default_bucket_id", int p.defaultBucketId),
    ("done_bucket_id", int p.doneBucketId), ("created", ofInstant p.created),
    ("updated", ofInstant p.updated)]

def Label.json (l : Label) : Json :=
  object [("id", int l.id), ("title", text l.title), ("hex_color", text l.hexColor),
    ("created", ofInstant l.created), ("updated", ofInstant l.updated)]

def TaskDetail.json (d : TaskDetail) : Json :=
  let t := d.task
  object [("id", int t.id), ("title", text t.title),
    ("description", ofOption text t.description), ("done", bool t.done),
    ("done_at", ofOption ofInstant t.doneAt), ("due_date", ofOption ofInstant t.dueDate),
    ("priority", int t.priority), ("percent_done", double t.percentDone),
    ("project_id", int t.projectId), ("bucket_id", int t.bucketId),
    ("position", double t.position), ("kanban_position", double t.kanbanPosition),
    ("labels", list (d.labels.map Label.json)), ("assignees", list (d.assignees.map User.json)),
    ("created_by", ofOption User.json d.createdBy), ("created", ofInstant t.created),
    ("updated", ofInstant t.updated)]

def BucketDetail.json (d : BucketDetail) : Json :=
  let b := d.bucket
  object [("id", int b.id), ("title", text b.title), ("project_id", int b.projectId),
    ("tasks", list (d.tasks.map TaskDetail.json)), ("limit", int b.limit),
    ("count", int d.count), ("position", double b.position), ("created", ofInstant b.created),
    ("updated", ofInstant b.updated), ("created_by", ofOption User.json d.createdBy)]

/-- An object that holds a message. -/
def Json.ofMessage (m : String) : Json := object [("message", text m)]

def Answer.json : Answer → Json
  | user u => u.json
  | project p => p.json
  | projects ps => list (ps.map Project.json)
  | bucket b => b.json
  | buckets bs => list (bs.map BucketDetail.json)
  | bucketId id => int id
  | task t => t.json
  | page p => list (p.tasks.map TaskDetail.json)
  | shared => ofMessage "Successfully shared."
  | deleted => ofMessage "Successfully deleted."

def Failure.json (f : Failure) : Json :=
  object [("error", text f.message), ("status", int f.status), ("code", int f.code)]

end Kanban
