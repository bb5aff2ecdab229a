import Kanban.Text.Basic

/-!
# Resources

What the path of an address names (`Resource.ofPath?`) and the methods that each resource knows.
The parts of a path that stand for ids are not looked at here.
-/

namespace Kanban

/-- A part of a path. -/
abbrev Segment := List Char

inductive Resource where
  | health
  | readiness
  | users
  | projects
  | project (p : Segment)
  | shares (p : Segment)
  | board (p : Segment)
  | bucket (p b : Segment)
  | taskList (p : Segment)
  | task (t : Segment)
  | taskPosition (t : Segment)
  | imports

/-- Methods that some resource knows. -/
inductive Method where
  | get
  | put
  | post
  | delete
  deriving DecidableEq

/-- The method of a name; `HEAD` asks for the same as `GET`. -/
def Method.ofName? (name : String) : Option Method :=
  if name = "GET" ∨ name = "HEAD" then some get
  else if name = "PUT" then some put
  else if name = "POST" then some post
  else if name = "DELETE" then some delete
  else none

namespace Resource

/-- The resource of the parts of a path. -/
def ofSegments? (segments : List Segment) : Option Resource :=
  match segments.map String.ofList, segments with
  | ["healthz"], _ => some health
  | ["readyz"], _ => some readiness
  | ["users"], _ => some users
  | ["projects"], _ => some projects
  | ["import"], _ => some imports
  | ["projects", _], [_, p] => some (project p)
  | ["projects", _, "shares"], [_, p, _] => some (shares p)
  | ["projects", _, "buckets"], [_, p, _] => some (board p)
  | ["projects", _, "buckets", _], [_, p, _, b] => some (bucket p b)
  | ["projects", _, "tasks"], [_, p, _] => some (taskList p)
  | ["tasks", _], [_, t] => some (task t)
  | ["tasks", _, "position"], [_, t, _] => some (taskPosition t)
  | _, _ => none

/-- The resource of a path.  Its last part is not empty; another one that stands for an id may be,
although no id is written so. -/
def ofPath? (path : List Char) : Option Resource :=
  match path with
  | '/' :: rest =>
    let segments := Text.splitAt '/' rest
    if segments.getLast? = some [] then none else ofSegments? segments
  | _ => none

/-- The methods that a resource knows. -/
def methods : Resource → List Method
  | health | readiness => [.get]
  | users | projects | imports | shares _ => [.put]
  | project _ => [.get, .post]
  | board _ | taskList _ => [.get, .put]
  | bucket .. | task _ => [.get, .post, .delete]
  | taskPosition _ => [.post]

end Resource

end Kanban
