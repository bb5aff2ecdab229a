import Kanban.Calendar.Instant
import Kanban.Double.Basic

/-!
# JSON values

The values of which answers consist.  Objects keep the order of their fields.
-/

namespace Kanban

inductive Json where
  | null
  | bool (b : Bool)
  | int (i : Int)
  | double (x : Double)
  | text (s : String)
  | list (items : List Json)
  | object (fields : List (String × Json))

namespace Json

def ofOption (f : α → Json) : Option α → Json
  | none => null
  | some a => f a

def ofInstant (t : Instant) : Json := text t.text

end Json

end Kanban
