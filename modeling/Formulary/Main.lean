import Formulary.CommandLine
/-!
# The program

Reads the files that the arguments name, and prints what the command line comes to. A session is held
line by line.
-/

namespace Formulary

/-- Why a file cannot be read. -/
def readFailure : IO.Error → String
  | .noFileOrDirectory .. => "No such file or directory (os error 2)"
  | e => toString e

/-- The text of a file, or why it cannot be read. -/
def readText (path : String) : IO (Except String String) := do
  try return .ok (← IO.FS.readFile path)
  catch e => return .error (readFailure e)

/-- The texts of the files with the names given. -/
def readFiles (paths : List String) : IO Files := do
  let texts ← paths.mapM fun path => return (path, ← readText path)
  return fun path => (texts.lookup path).getD (.error "No such file or directory (os error 2)")

/-- Prints the lines of an outcome. -/
def printLines (output errors : List String) : IO Unit := do
  output.forM IO.println
  errors.forM IO.eprintln

/-- Holds a session with what comes in. -/
partial def converse (input : IO.FS.Stream) (session : Session) : IO Unit := do
  let line ← input.getLine
  if line.isEmpty then
    printLines Session.farewell []
  else
    let (next, reply) := session.respond (withoutErased line)
    printLines reply.lines reply.diagnostics
    unless reply.ends do converse input next

/-- Carries out what arguments ask for, and gives the status. -/
def runArguments (arguments : List String) : IO Nat := do
  match Request.ofArguments arguments with
  | .error fault =>
    printLines fault.outcome.output fault.outcome.errors
    return fault.outcome.status
  | .ok request =>
    let files ← readFiles request.paths
    match request with
    | .perform config .repl =>
      match readSettingsFile files config with
      | .ok settings =>
        printLines Session.greeting []
        converse (← IO.getStdin) (.start settings)
        return 0
      | .error reason =>
        let outcome := Outcome.stop reason
        printLines outcome.output outcome.errors
        return outcome.status
    | request =>
      let outcome := request.outcome files []
      printLines outcome.output outcome.errors
      return outcome.status

end Formulary

/-- The entry of the program. -/
def main (arguments : List String) : IO UInt32 := do
  return (← Formulary.runArguments arguments).toUInt32
