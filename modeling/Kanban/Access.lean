import Kanban.Store.Basic

/-!
# Rights on projects

The owner of a project holds every right on it; other users hold what was granted to them.
-/

namespace Kanban

inductive Right where
  | read
  | write
  | admin
  deriving DecidableEq

namespace Right

/-- Rights as they are stored. -/
def value : Right → Int
  | read => 0
  | write => 1
  | admin => 2

def ofValue? (i : Int) : Option Right :=
  if i = 0 then some read else if i = 1 then some write else if i = 2 then some admin else none

/-- A right includes the lower ones. -/
def includes (held needed : Right) : Bool := needed.value ≤ held.value

end Right

namespace Store

/-- The highest right of a user on a project. -/
def right? (s : Store) (actor : Int) (p : Project) : Option Right :=
  if p.ownerId = actor then some .admin
  else (s.share? p.id actor).bind fun h => Right.ofValue? h.right

/-- The user holds the right on the project. -/
def allows (s : Store) (actor : Int) (p : Project) (needed : Right) : Bool :=
  (s.right? actor p).any (·.includes needed)

/-- A project on which the user holds the right. -/
def projectFor (s : Store) (needed : Right) (actor id : Int) : Except Failure Project := do
  let p ← s.getProject id
  if s.allows actor p needed then .ok p else .error .forbidden

/-- The user who acts; without an account nobody does. -/
def actor (s : Store) (id : Int) : Except Failure User :=
  match s.user? id with
  | some u => .ok u
  | none => .error .unauthenticated

end Store

end Kanban
