import Kanban.Text.Integer

/-!
# Configuration

The settings of the service.  An argument of the command line wins over a variable of the
environment, which wins over the default; variables are read even where an argument wins.
-/

namespace Kanban

/-- Settings given on the command line. -/
structure Arguments where
  host : Option String := none
  port : Option Int := none
  databaseUrl : Option String := none
  maxItemsPerPage : Option Int := none
  /-- Only set up the store. -/
  migrate : Bool := false
  deriving DecidableEq

structure Config where
  host : String
  port : Int
  databaseUrl : String
  maxItemsPerPage : Int
  deriving DecidableEq

namespace Config

/-- Why there is no configuration. -/
inductive Fault where
  | badVariable (name value : String) (cause : Integer.Fault)
  | pageTooSmall (size : Int)
  deriving DecidableEq

/-- The messages from the outermost one to the cause. -/
def Fault.messages : Fault → List String
  | badVariable name value cause =>
    ["parsing " ++ name ++ " value `" ++ value ++ "`", cause.message]
  | pageTooSmall size => ["max items per page must be at least 1, got " ++ toString size]

def hostVariable : String := "TASKBOARD_HOST"
def portVariable : String := "TASKBOARD_PORT"
def databaseVariable : String := "TASKBOARD_DATABASE_URL"
def pageVariable : String := "TASKBOARD_MAX_ITEMS_PER_PAGE"

/-- The integer in a variable of the environment, or a default when it is not set. -/
def integerVariable (b : Integer.Bounds) (env : String → Option String) (name : String)
    (default : Int) : Except Fault Int :=
  match env name with
  | none => .ok default
  | some value =>
    match Integer.read b value.toList with
    | .ok i => .ok i
    | .error cause => .error (.badVariable name value cause)

/-- The configuration from arguments and environment. -/
def merge (args : Arguments) (env : String → Option String) : Except Fault Config := do
  let port ← integerVariable .uint16 env portVariable 3000
  let most ← integerVariable .int64 env pageVariable 50
  let most := args.maxItemsPerPage.getD most
  if most < 1 then .error (.pageTooSmall most)
  else
    .ok {
      host := args.host.getD ((env hostVariable).getD "0.0.0.0")
      port := args.port.getD port
      databaseUrl := args.databaseUrl.getD
        ((env databaseVariable).getD "sqlite://./data/taskboard.db")
      maxItemsPerPage := most }

/-- The address to listen on. -/
def address (c : Config) : String := c.host ++ ":" ++ toString c.port

end Config

end Kanban
