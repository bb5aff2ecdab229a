import Kanban.Filter.Fault

/-!
# Failures of an operation

What an operation answers when it does not succeed, with its message, the number that clients
branch on and the status of the response.
-/

namespace Kanban

/-- What is wrong with the arguments of an operation. -/
inductive Invalid where
  | blankUsername
  | usernameTaken (name : String)
  | blankProjectTitle
  | blankBucketTitle
  | blankTaskTitle
  | negativeLimit
  | positionNotFinite
  | percentOutOfRange
  | unknownRight (value : Int)
  | unsortableField (name : String)
  | unknownDirection (name : String)
  | ownNeighbor
  | neighborElsewhere (id : Int) (scope : String)
  | neighborsOutOfOrder
  | noRoom
  | other (reason : String)
  deriving DecidableEq

def Invalid.reason : Invalid → String
  | blankUsername => "username must not be empty"
  | usernameTaken name => "username `" ++ name ++ "` is already taken"
  | blankProjectTitle => "title must not be empty"
  | blankBucketTitle => "bucket title must not be empty"
  | blankTaskTitle => "task title must not be empty"
  | negativeLimit => "bucket limit must not be negative"
  | positionNotFinite => "position must be finite"
  | percentOutOfRange => "percent_done must be between 0 and 1"
  | unknownRight value => "invalid right " ++ toString value
  | unsortableField name => "cannot sort by `" ++ name ++ "`"
  | unknownDirection name => "invalid sort order `" ++ name ++ "`"
  | ownNeighbor => "a task cannot be its own neighbor"
  | neighborElsewhere id scope =>
    "task " ++ toString id ++ " is not in the same " ++ scope ++ " as the moved task"
  | neighborsOutOfOrder => "`before_id` must be ordered before `after_id`"
  | noRoom => "no room between the given neighbors"
  | other reason => reason

inductive Failure where
  | invalid (why : Invalid)
  | unauthenticated
  | forbidden
  | projectNotFound (id : Int)
  | bucketNotFound (id : Int)
  | taskNotFound (id : Int)
  | userNotFound (id : Int)
  | lastBucket (bucketId projectId : Int)
  | bucketFull (bucketId limit : Int)
  | filter (fault : Filter.Fault)
  | storage
  deriving DecidableEq

namespace Failure

/-- The message shown to the client; what went wrong in the store is not shown. -/
def message : Failure → String
  | invalid why => "invalid input: " ++ why.reason
  | unauthenticated => "missing or unknown actor"
  | forbidden => "forbidden"
  | projectNotFound id => "project " ++ toString id ++ " does not exist"
  | bucketNotFound id => "bucket " ++ toString id ++ " does not exist"
  | taskNotFound id => "task " ++ toString id ++ " does not exist"
  | userNotFound id => "user " ++ toString id ++ " does not exist"
  | lastBucket bucketId projectId =>
    "cannot remove last bucket " ++ toString bucketId ++ " of project " ++ toString projectId
  | bucketFull bucketId limit =>
    "bucket " ++ toString bucketId ++ " has reached its limit of " ++ toString limit ++ " tasks"
  | filter fault => fault.message
  | storage => "internal server error"

/-- The number that clients branch on. -/
def code : Failure → Nat
  | invalid _ => 2002
  | unauthenticated => 1001
  | forbidden => 4001
  | projectNotFound _ => 3001
  | bucketNotFound _ => 10001
  | taskNotFound _ => 4002
  | userNotFound _ => 1005
  | lastBucket .. => 10002
  | bucketFull .. => 10004
  | filter _ => 4024
  | storage => 0

/-- The status of the response. -/
def status : Failure → Nat
  | invalid _ | filter _ => 400
  | unauthenticated => 401
  | forbidden => 403
  | projectNotFound _ | bucketNotFound _ | taskNotFound _ | userNotFound _ => 404
  | lastBucket .. | bucketFull .. => 412
  | storage => 500

end Failure

/-- What a check makes of a new value, or the old value when no new one is given. -/
def renewed {α β : Type} (new : Option α) (old : β) (check : α → Except Failure β) :
    Except Failure β :=
  match new with
  | some x => check x
  | none => .ok old

end Kanban
