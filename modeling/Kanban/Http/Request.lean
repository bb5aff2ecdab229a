import Kanban.Http.Answer
import Kanban.Http.Body
import Kanban.Http.Form
import Kanban.Http.MediaType
import Kanban.Http.Resource

/-!
# Requests

A request is read into a call: an operation of a user, or a probe of the service (`Request.call`).
Checks are made in a fixed order: the resource, the method, the acting user, the ids in the path,
and then the query or the body.
-/

namespace Kanban

structure Request where
  method : String
  /-- Path and query. -/
  target : String
  /-- The header that names the acting user. -/
  userId : Option String := none
  contentType : Option String := none
  body : String := ""

/-- A response; a list of tasks comes with the numbers of pages and of tasks. -/
structure Response where
  status : Nat
  body : Option Json := none
  totals : Option (Int × Int) := none

/-- A response without a body that can be relied on. -/
def Response.rejection (status : Nat) : Response := { status }

def Failure.response (f : Failure) : Response := { status := f.status, body := some f.json }

/-- What a request asks for. -/
inductive Call where
  | health
  | readiness
  | operation (op : Operation)

namespace Request

/-! ### Path and query -/

/-- Path and query up to a number sign. -/
def address (r : Request) : List Char := r.target.toList.takeWhile (· != '#')

def path (r : Request) : List Char := r.address.takeWhile (· != '?')

/-- The names and values of the query. -/
def query (r : Request) : List (String × String) :=
  Form.pairs ((r.address.dropWhile (· != '?')).drop 1)

/-- An id in a path. -/
def idOf (segment : Segment) : Except Response Int :=
  match (Form.segment? segment).bind Integer.int64? with
  | some id => .ok id
  | none => .error (.rejection 400)

/-- The values of a name in a query; one may be given, and it has to be readable. -/
def field (query : List (String × String)) (name : String) (default : α)
    (read? : String → Option α) : Except Response α :=
  match query.filter (·.1 == name) with
  | [] => .ok default
  | [(_, value)] =>
    match read? value with
    | some a => .ok a
    | none => .error (.rejection 400)
  | _ => .error (.rejection 400)

/-- The values `true` and `false`. -/
def bool? (value : String) : Option Bool :=
  if value = "true" then some true else if value = "false" then some false else none

/-- The options in a query. -/
def options (query : List (String × String)) : Except Response ListOptions := do
  let int? (value : String) := Integer.int64? value.toList
  let number ← field query "page" 0 int?
  let size ← field query "per_page" 0 int?
  let search ← field query "s" "" some
  let filter ← field query "filter" "" some
  let zone ← field query "filter_timezone" "" some
  let includeNulls ← field query "filter_include_nulls" false bool?
  let sortBy ← field query "sort_by" "" some
  let orderBy ← field query "order_by" "" some
  let sort ← (SortKey.parse sortBy orderBy).mapError Failure.response
  .ok { sort, page := ⟨number, size⟩, search, filter, zone, includeNulls }

/-! ### User and body -/

/-- A character that a header may hold. -/
def isHeaderChar (c : Char) : Bool := c = '\t' || (32 ≤ c.toNat && c.toNat < 127)

/-- The acting user: a positive number in the header. -/
def actor (r : Request) : Except Response Int :=
  let id? := do
    let cs ← r.userId.map String.toList
    if cs.all isHeaderChar then Integer.int64? (Text.trim cs) else none
  match id? with
  | some id => if 0 < id then .ok id else .error Failure.unauthenticated.response
  | none => .error Failure.unauthenticated.response

/-- The body as a value of some type. -/
def read (r : Request) (reader : Json.Reader α) : Except Response α :=
  if r.contentType.any fun c => c.toList.all isHeaderChar && MediaType.isJson c then
    match Json.Reader.document reader r.body.toList with
    | .ok a => .ok a
    | .error .malformed => .error (.rejection 400)
    | .error .mismatched => .error (.rejection 422)
  else .error (.rejection 415)

/-! ### Calls -/

/-- What the request asks of a resource in the name of a user. -/
def operation (r : Request) (actor : Int) : Method → Resource → Except Response Operation
  | .put, .projects => do .ok (.createProject actor (← r.read NewProject.reader))
  | .put, .imports => do
    .ok (.importProjects actor (← r.read (Json.Reader.list ProjectImport.reader)))
  | .get, .project p => do .ok (.readProject actor (← idOf p))
  | .post, .project p => do
    let p ← idOf p
    .ok (.updateProject actor p (← r.read ProjectUpdate.reader))
  | .put, .shares p => do
    let p ← idOf p
    .ok (.shareProject actor p (← r.read NewShare.reader))
  | .get, .board p => do
    let p ← idOf p
    .ok (.readBoard actor p (← options r.query))
  | .put, .board p => do
    let p ← idOf p
    .ok (.createBucket actor p (← r.read NewBucket.reader))
  | .get, .bucket p b => do .ok (.readBucket actor (← idOf p) (← idOf b))
  | .post, .bucket p b => do
    let p ← idOf p
    let b ← idOf b
    .ok (.updateBucket actor p b (← r.read BucketUpdate.reader))
  | .delete, .bucket p b => do .ok (.deleteBucket actor (← idOf p) (← idOf b))
  | .get, .taskList p => do
    let p ← idOf p
    .ok (.listTasks actor p (← options r.query))
  | .put, .taskList p => do
    let p ← idOf p
    .ok (.createTask actor p (← r.read NewTask.reader))
  | .get, .task t => do .ok (.readTask actor (← idOf t))
  | .post, .task t => do
    let t ← idOf t
    .ok (.updateTask actor t (← r.read TaskUpdate.reader))
  | .delete, .task t => do .ok (.deleteTask actor (← idOf t))
  | .post, .taskPosition t => do
    let t ← idOf t
    .ok (.moveTask actor t (← r.read TaskMove.reader))
  | _, _ => .error (.rejection 405)

/-- What the request asks for.  Registering a user needs no acting user. -/
def call (r : Request) : Except Response Call :=
  match Resource.ofPath? r.path with
  | none => .error (.rejection 404)
  | some resource =>
    match (Method.ofName? r.method).filter (resource.methods.contains ·) with
    | none => .error (.rejection 405)
    | some method =>
      match resource with
      | .health => .ok .health
      | .readiness => .ok .readiness
      | .users => do .ok (.operation (.createUser (← r.read NewUser.reader)))
      | resource => do
        let actor ← r.actor
        .ok (.operation (← r.operation actor method resource))

end Request

end Kanban
