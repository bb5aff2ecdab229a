import Kanban.Http.Request

/-!
# The service

A store behind the requests.  A store that was closed answers nothing any more: what an operation
checks beforehand still fails as usual, and everything else is a failure of the store.  There is no
response at all when the number of pages cannot be computed.
-/

namespace Kanban

structure Service where
  setup : Setup
  store : Store := {}
  isOpen : Bool := true

/-- The status of a response to an operation that succeeds. -/
def Operation.successStatus : Operation → Nat
  | createUser .. | createProject .. | createBucket .. | createTask .. | importProjects .. => 201
  | _ => 200

/-- The response with an answer; with a page come the numbers of pages and of tasks. -/
def Answer.response? (status : Nat) (a : Answer) : Option Response :=
  match a with
  | .page p => do
    let pages ← p.pageCount?
    some { status, body := some a.json, totals := some (pages, p.total) }
  | _ => some { status, body := some a.json }

namespace Service

/-- Performs an operation. -/
def perform (s : Service) (op : Operation) : Except Failure Answer × Service :=
  if s.isOpen then
    match op.run s.setup s.store with
    | .ok (a, store) => (.ok a, { s with store })
    | .error f => (.error f, s)
  else
    match op.precheck s.setup s.store.now with
    | .ok _ => (.error .storage, s)
    | .error f => (.error f, s)

def healthResponse : Response where
  status := 200
  body := some (.object [("status", .text "ok")])

/-- Tells whether the store answers. -/
def readinessResponse (s : Service) : Response :=
  let check (status : String) (error : Json) : Json :=
    .object [("status", .text status),
      ("checks", .object [("sqlite", .object [("ok", .bool s.isOpen), ("error", error)])])]
  if s.isOpen then { status := 200, body := some (check "ok" .null) }
  else {
    status := 503
    body := some (check "error"
      (.text "error: attempted to acquire a connection on a closed pool")) }

/-- Answers a request. -/
def respond (s : Service) (r : Request) : Option Response × Service :=
  match r.call with
  | .error response => (some response, s)
  | .ok .health => (some healthResponse, s)
  | .ok .readiness => (some s.readinessResponse, s)
  | .ok (.operation op) =>
    match s.perform op with
    | (.ok a, s) => (a.response? op.successStatus, s)
    | (.error f, s) => (some f.response, s)

/-- Answers a request; the answer to `HEAD` has no body. -/
def handle (s : Service) (r : Request) : Option Response × Service :=
  let (response?, s) := s.respond r
  (if r.method = "HEAD" then response?.map ({ · with body := none }) else response?, s)

end Service

end Kanban
