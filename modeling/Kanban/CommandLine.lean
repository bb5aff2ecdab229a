import Kanban.Config
import Kanban.Text.Basic

/-!
# Command line

Long options with a value, which follows after `=` or as the next word, and options without one.  An
option may be given once.  The value of an option is looked at when the next option or the end is
reached, so a word that is no option at all is noticed before a bad value in front of it.
-/

namespace Kanban.CommandLine

/-- The options in brief. -/
def usage : String :=
  "Usage: kanban [--host HOST] [--port PORT] [--database-url URL] [--max-items-per-page COUNT] " ++
    "[--migrate]"

/-- The name and version of the program. -/
def version : String := "kanban 0.1.0"

/-- Why there are no arguments. -/
inductive Fault where
  | unknownArgument
  | missingValue
  | badValue
  | repeatedOption
  | unneededValue
  | help
  | version
  deriving DecidableEq

def Fault.message : Fault → String
  | unknownArgument => "error: unexpected argument found"
  | missingValue => "error: a value is required but none was supplied"
  | badValue => "error: invalid value"
  | repeatedOption => "error: an argument cannot be used multiple times"
  | unneededValue => "error: unexpected value for an argument without values"
  | help => usage
  | version => CommandLine.version

/-- The options. -/
inductive Setting where
  | host
  | port
  | databaseUrl
  | maxItemsPerPage
  | migrate
  | help
  | version
  deriving DecidableEq

namespace Setting

def all : List Setting := [host, port, databaseUrl, maxItemsPerPage, migrate, help, version]

def name : Setting → String
  | host => "host"
  | port => "port"
  | databaseUrl => "database-url"
  | maxItemsPerPage => "max-items-per-page"
  | migrate => "migrate"
  | help => "help"
  | version => "version"

/-- The option takes a value. -/
def takesValue : Setting → Bool
  | host | port | databaseUrl | maxItemsPerPage => true
  | migrate | help | version => false

/-- The option of a single letter. -/
def ofLetter? (c : Char) : Option Setting :=
  if c = 'h' then some help else if c = 'V' then some version else none

end Setting

/-- How far the words were read: an option may still wait for its value. -/
structure State where
  args : Arguments := {}
  given : List Setting := []
  waiting : Option (Setting × Option String) := none

/-- An integer inside bounds. -/
def integer (b : Integer.Bounds) (value : String) : Except Fault Int :=
  match Integer.read .int64 value.toList with
  | .ok i => if b.holds i then .ok i else .error .badValue
  | .error _ => .error .badValue

/-- The arguments with the value of an option. -/
def setValue (args : Arguments) (value : String) : Setting → Except Fault Arguments
  | .host => .ok { args with host := some value }
  | .port => do .ok { args with port := some (← integer .uint16 value) }
  | .databaseUrl => .ok { args with databaseUrl := some value }
  | .maxItemsPerPage => do .ok { args with maxItemsPerPage := some (← integer .int64 value) }
  | .migrate => .ok { args with migrate := true }
  | .help => .error .help
  | .version => .error .version

/-- An option with its value takes effect. -/
def accept (s : State) (o : Setting) (value : Option String) : Except Fault State :=
  match value with
  | none =>
    if o.takesValue then .error .missingValue
    else take ""
  | some v => take v
where
  take (v : String) : Except Fault State :=
    if s.given.contains o then .error .repeatedOption
    else do .ok { s with args := ← setValue s.args v o, given := o :: s.given }

/-- The waiting option takes effect. -/
def settle (s : State) : Except Fault State :=
  match s.waiting with
  | none => .ok s
  | some (o, value) => accept { s with waiting := none } o value

/-- An option without a value takes effect, after the one that waits. -/
def acceptFlag (s : State) (o : Setting) : Except Fault State := do accept (← settle s) o none

/-- A word that begins with two hyphens. -/
def long (s : State) (word : List Char) : Except Fault State :=
  let name := word.takeWhile (· != '=')
  let value := (word.dropWhile (· != '=')).tail?
  match Setting.all.find? (·.name == String.ofList name) with
  | none => .error .unknownArgument
  | some o =>
    if o.takesValue then do
      let s ← settle s
      match value with
      | some v => accept s o (some (String.ofList v))
      | none => .ok { s with waiting := some (o, none) }
    else if value.isSome then .error .unneededValue
    else acceptFlag s o

/-- The letters after a single hyphen. -/
def short (s : State) : List Char → Except Fault State
  | [] => .ok s
  | c :: cs =>
    match Setting.ofLetter? c with
    | none => .error .unknownArgument
    | some o => do short (← acceptFlag s o) cs

/-- A word that is no option: the value that an option waits for. -/
def plain (s : State) (word : String) : Except Fault State :=
  match s.waiting with
  | some (o, none) => .ok { s with waiting := some (o, some word) }
  | _ => .error .unknownArgument

/-- One word.  After two hyphens alone no word is an option or a value. -/
def step (s : State) (word : String) : Except Fault State :=
  match word.toList with
  | '-' :: '-' :: rest => long s rest
  | '-' :: c :: rest => short s (c :: rest)
  | _ => plain s word

/-- All words. -/
def steps (s : State) : List String → Except Fault State
  | [] => settle s
  | "--" :: rest => if rest.isEmpty then settle s else .error .unknownArgument
  | word :: rest => do steps (← step s word) rest

/-- Reads the words of a command line. -/
def parse (words : List String) : Except Fault Arguments := do .ok (← steps {} words).args

end Kanban.CommandLine
