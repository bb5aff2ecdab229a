import Kanban.Calendar.ZoneTable
import Kanban.CommandLine
import Kanban.Http.Message

/-!
# The program

Reads the configuration and then answers the requests on standard input one after the other, with
one store for all of them.
-/

namespace Kanban

/-- The variables of the environment that are set. -/
def environment : IO (List (String × String)) := do
  let names := [Config.hostVariable, Config.portVariable, Config.databaseVariable,
    Config.pageVariable]
  let values ← names.mapM fun name => do
    let value ← IO.getEnv name
    return value.map (name, ·)
  return values.filterMap id

/-- The lines up to an empty one. -/
partial def readLines (input : IO.FS.Stream) : IO (List String) := do
  let line ← input.getLine
  if (Text.trim line.toList).isEmpty then return []
  return line :: (← readLines input)

/-- A number of bytes, or as many as there are. -/
partial def readBytes (input : IO.FS.Stream) (count : Nat) (read : ByteArray) : IO ByteArray := do
  if count ≤ read.size then return read
  let more ← input.read (USize.ofNat (count - read.size))
  if more.isEmpty then return read
  readBytes input count (read ++ more)

/-- Answers requests until the input ends, or a request gets no response. -/
partial def serve (input output : IO.FS.Stream) (service : Service) : IO Unit := do
  let lines ← readLines input
  if lines.isEmpty then return
  let answer (response : Response) : IO Unit := do
    output.putStr response.print
    output.flush
  match Head.ofLines? lines with
  | none => answer (Response.rejection 400)
  | some head =>
    let bytes ← readBytes input head.bodyLength ByteArray.empty
    match String.fromUTF8? bytes with
    | none =>
      answer (Response.rejection 400)
      serve input output service
    | some body =>
      match service.handle (head.request body) with
      | (none, _) => return
      | (some response, service) =>
        answer response
        serve input output service

/-- Runs the service with a configuration. -/
def runService (args : Arguments) (config : Config) : IO Unit := do
  unless args.migrate do
    let setup : Setup := { maxPerPage := config.maxItemsPerPage, zones := Zone.tabulated? }
    serve (← IO.getStdin) (← IO.getStdout) { setup }

end Kanban

open Kanban in
def main (words : List String) : IO UInt32 := do
  match CommandLine.parse words with
  | .error fault =>
    if fault = .help ∨ fault = .version then
      IO.println fault.message
      return 0
    else
      IO.eprintln fault.message
      return 2
  | .ok args =>
    let env ← environment
    match Config.merge args (fun name => env.lookup name) with
    | .error fault =>
      IO.eprintln (": ".intercalate fault.messages)
      return 1
    | .ok config =>
      runService args config
      return 0
