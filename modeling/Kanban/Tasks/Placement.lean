import Kanban.Position
import Kanban.Store.Basic

/-!
# Placement of a task

The key of a task that is to stand between two others of its scope (`Store.place`).  When the keys
of the neighbors leave no room, the keys of all other tasks of the scope are spread out, in their
order, and the key is sought once more.
-/

namespace Kanban

/-- A scope of one bucket or one project: the tasks among which keys are compared. -/
structure Place where
  scope : Scope
  id : Int

namespace Place

/-- The task is in the scope. -/
def contains (p : Place) (t : Task) : Bool :=
  match p.scope with
  | .kanban => t.bucketId == p.id
  | .list => t.projectId == p.id

/-- The scope of a move: the target bucket, or the project. -/
def forMove (p : Project) (target : Int) : Scope → Place
  | .kanban => ⟨.kanban, target⟩
  | .list => ⟨.list, p.id⟩

/-- The word for the scope in messages. -/
def word (p : Place) : String :=
  match p.scope with
  | .kanban => "bucket"
  | .list => "project"

end Place

namespace Store

/-- The tasks of the scope but for the one that moves. -/
def othersIn (s : Store) (p : Place) (moving : Int) : List Task :=
  s.tasks.filter fun t => p.contains t && t.id != moving

/-- The greatest key of the scope, the moving task aside. -/
def tailKey (s : Store) (p : Place) (moving : Int) : Option Double :=
  greatest? ((s.othersIn p moving).map (·.key p.scope))

/-- The key of a neighbor, which must be another task of the scope. -/
def neighborKey (s : Store) (p : Place) (moving neighbor : Int) : Except Failure Double :=
  if neighbor = moving then .error (.invalid .ownNeighbor)
  else
    match s.tasks.find? fun t => t.id == neighbor && p.contains t with
    | some t => .ok (t.key p.scope)
    | none => .error (.invalid (.neighborElsewhere neighbor p.word))

/-- The key of a neighbor, if one is given. -/
def optionalKey (s : Store) (p : Place) (moving : Int) :
    Option Int → Except Failure (Option Double)
  | some neighbor => (s.neighborKey p moving neighbor).map some
  | none => .ok none

/-- The keys between which the task is to stand: those of the given neighbors, or the end of the
scope when there are none. -/
def neighborKeys (s : Store) (p : Place) (moving : Int) (before after : Option Int) :
    Except Failure (Option Double × Option Double) := do
  if before.isNone && after.isNone then .ok (s.tailKey p moving, none)
  else
    let b ← s.optionalKey p moving before
    let a ← s.optionalKey p moving after
    .ok (b, a)

/-- Gives the task with an id a key, if there is such a task. -/
def assignKey (s : Store) (scope : Scope) (id : Int) (key : Double) : Store :=
  match s.task? id with
  | some t => s.setTask (t.withKey scope key)
  | none => s

/-- Gives the listed tasks the listed keys. -/
def assignKeys (s : Store) (scope : Scope) : List (Int × Double) → Store
  | [] => s
  | (id, key) :: more => assignKeys (s.assignKey scope id key) scope more

/-- The tasks of the scope in its order, the moving task aside. -/
def rankedIn (s : Store) (p : Place) (moving : Int) : List Task :=
  (s.orderedIn p.scope p.id).filter (·.id != moving)

/-- The keys that the tasks of the scope get when they are spread out. -/
def spreadKeys (s : Store) (p : Place) (moving : Int) : List (Int × Double) :=
  let ids := (s.rankedIn p moving).map (·.id)
  ids.zip (Position.rebalanced ids.length)

/-- Spreads out the keys of the scope, the moving task aside. -/
def rebalance (s : Store) (p : Place) (moving : Int) : Store :=
  s.assignKeys p.scope (s.spreadKeys p moving)

/-- A key between two neighbors, if their keys leave room for one. -/
def keyBetween? (before after : Option Double) : Except Failure (Option Double) :=
  let outOfOrder := match before, after with
    | some b, some a => decide (a < b)
    | _, _ => false
  if outOfOrder then .error (.invalid .neighborsOutOfOrder)
  else
    let key := Position.allocate before after
    .ok (if Position.needsRebalance before after key then none else some key)

/-- Finds a key for the moving task; the keys of the scope are spread out if they have to be. -/
def place (s : Store) (p : Place) (moving : Int) (before after : Option Int) :
    Except Failure (Double × Store) := do
  let (b, a) ← s.neighborKeys p moving before after
  match ← keyBetween? b a with
  | some key => .ok (key, s)
  | none =>
    let s := s.rebalance p moving
    let (b, a) ← s.neighborKeys p moving before after
    match ← keyBetween? b a with
    | some key => .ok (key, s)
    | none => .error (.invalid .noRoom)

end Store

end Kanban
