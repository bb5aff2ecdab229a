import Kanban.Http.Service
import Kanban.Json.Printer

/-!
# Messages

The text form of requests and responses.  A request begins with lines that name method, target and
headers (`Head`), and an empty line ends them; the body follows, as long as a header says.
-/

namespace Kanban

/-- What stands in front of the body of a request. -/
structure Head where
  method : String
  target : String
  headers : List (String × String)

namespace Head

/-- A line with the name and the value of a header. -/
def headerOf? (line : List Char) : Option (String × String) :=
  match line.dropWhile (· != ':') with
  | [] => none
  | _ :: value =>
    some (String.ofList (Text.lower (line.takeWhile (· != ':'))), String.ofList (Text.trim value))

/-- Reads the lines before the empty one. -/
def ofLines? : List String → Option Head
  | [] => none
  | first :: lines => do
    match Text.splitAt ' ' (Text.trimEnd first.toList) with
    | [method, target, _] =>
      let headers ← lines.mapM fun line => headerOf? line.toList
      some { method := String.ofList method, target := String.ofList target, headers }
    | _ => none

/-- The value of a header; names of headers are in lower case. -/
def header? (h : Head) (name : String) : Option String := h.headers.lookup name

/-- The number of bytes of the body. -/
def bodyLength (h : Head) : Nat :=
  match (h.header? "content-length").bind (Integer.int64? ·.toList) with
  | some n => n.toNat
  | none => 0

/-- The request with its body. -/
def request (h : Head) (body : String) : Request where
  method := h.method
  target := h.target
  userId := h.header? "x-user-id"
  contentType := h.header? "content-type"
  body := body

end Head

namespace Response

/-- The phrase that goes with a status. -/
def phrase (status : Nat) : String :=
  match status with
  | 200 => "OK"
  | 201 => "Created"
  | 400 => "Bad Request"
  | 401 => "Unauthorized"
  | 403 => "Forbidden"
  | 404 => "Not Found"
  | 405 => "Method Not Allowed"
  | 412 => "Precondition Failed"
  | 415 => "Unsupported Media Type"
  | 422 => "Unprocessable Entity"
  | 503 => "Service Unavailable"
  | _ => "Internal Server Error"

/-- The headers and the body. -/
def parts (r : Response) : List (String × String) × String :=
  let totals :=
    match r.totals with
    | none => []
    | some (pages, tasks) =>
      [("x-pagination-total-pages", toString pages), ("x-pagination-result-count", toString tasks)]
  match r.body with
  | none => (totals ++ [("content-length", "0")], "")
  | some json =>
    let body := json.print
    (totals ++ [("content-type", "application/json"),
      ("content-length", toString body.utf8ByteSize)], body)

/-- The whole response as text. -/
def print (r : Response) : String :=
  let (headers, body) := r.parts
  let lines := ("HTTP/1.1 " ++ toString r.status ++ " " ++ phrase r.status) ::
    headers.map fun (name, value) => name ++ ": " ++ value
  String.join (lines.map (· ++ "\r\n")) ++ "\r\n" ++ body

end Response

end Kanban
