import Formulary.CommandLine.Arguments
import Formulary.Program.Interchange
import Formulary.Program.TraceInterchange
import Formulary.Session
import Formulary.Settings.Toml
import Formulary.Text.Grapheme
/-!
# The command line

What a command line prints and the status with which it ends. Files are given as a function from their
names to their texts or to the reason why they cannot be read, and the lines of the standard input as a
list, so that nothing here reads or prints by itself.
-/

namespace Formulary

/-- The texts of files by name, or why a file cannot be read. -/
abbrev Files := String → Except String String

/-- The name and version of the program. -/
def versionText : String := "calcprog " ++ programVersion

/-- How the program is used. -/
def usage : List String := [
  "Calculation programs over \x7b\x7bvariable\x7d\x7d expressions",
  "",
  "Usage: calcprog [OPTIONS] <COMMAND>",
  "",
  "Commands:",
  "  analyze  Report the variables an expression uses and its first problem",
  "  eval     Evaluate an expression",
  "  check    Validate a program file (JSON)",
  "  run      Run a program file (JSON) and print its outputs",
  "  repl     Interactive scope builder",
  "  help     Print this message or the help of the given subcommand(s)",
  "",
  "Options:",
  "  -c, --config <CONFIG>  Engine config file (TOML)",
  "  -h, --help             Print help",
  "  -V, --version          Print version"]

/-- What a command line comes to: the lines on the two outputs and the status. -/
structure Outcome where
  status : Nat
  output : List String
  errors : List String

namespace Outcome

/-- Success with the lines given. -/
def success (output : List String) : Outcome :=
  ⟨0, output, []⟩

/-- Failure with the lines given. -/
def failure (errors : List String) : Outcome :=
  ⟨1, [], errors⟩

/-- Failure for a reason. -/
def stop (reason : String) : Outcome :=
  failure ["Error: " ++ reason]

end Outcome

/-! ## Commands -/

/-- The settings in a file, or the standard ones if none is given. -/
def readSettingsFile (files : Files) : Option String → Except String Settings
  | none => .ok .standard
  | some path => do
    let text ← (files path).mapError fun reason => "Failed to read " ++ path ++ ": " ++ reason
    (Toml.readSettings text).mapError fun fault => "Invalid config: " ++ fault.message

/-- The program in a file. -/
def readProgramFile (files : Files) (path : String) : Except String Program := do
  let text ← files path
  (Program.ofJsonText text).mapError (Json.Problem.messageIn text)

/-- Checks a program file. -/
def checkFile (files : Files) (settings : Settings) (path : String) : Outcome :=
  match readProgramFile files path with
  | .error reason => .stop reason
  | .ok p => match p.violation? settings with
    | some v => .stop v.notice.text
    | none => .success ["✓ " ++ path ++ " is a valid program"]

/-- How a run that has no result is reported. The fault of a step that has a source is shown. -/
def RunFault.report (p : Program) (e : RunFault) : List String :=
  match e with
  | .failed index _ fault =>
    match p.steps[index]? >>= Program.Step.definition with
    | some (.source _) => fault.diagnostic
    | _ => ["Error: " ++ e.message]
  | .invalid _ => ["Error: " ++ e.message]

/-- Runs a program file and prints its outputs, or all that was computed. -/
def runFile (files : Files) (settings : Settings) (path : String) (trace : Bool) : Outcome :=
  match readProgramFile files path with
  | .error reason => .stop reason
  | .ok p => match p.run settings with
    | .error e => .failure (e.report p)
    | .ok t =>
      let shown := if trace then t.toJson else .array (t.outputs.map OutputRecord.toJson)
      .success [shown.prettyText]

/-- Evaluates a source in a scope. -/
def evalSource (settings : Settings) (source : String) (bindings : List (String × Float)) :
    Outcome :=
  match evaluateSource settings source (.ofList bindings) with
  | .ok x => .success [numberText x]
  | .error fault => .failure fault.diagnostic

/-- What a session prints for the lines of the input. -/
def sessionOutcome (settings : Settings) (input : List String) : Outcome :=
  let replies := (Session.start settings).transcript input
  ⟨0, Session.greeting ++ replies.flatMap Reply.lines, replies.flatMap Reply.diagnostics⟩

/-- Carries out a command. -/
def Command.outcome (files : Files) (input : List String) (settings : Settings) :
    Command → Outcome
  | analyze source => .success [(Formulary.analyze settings source).toJson.prettyText]
  | eval source bindings => evalSource settings source bindings
  | check path => checkFile files settings path
  | run path trace => runFile files settings path trace
  | repl => sessionOutcome settings input

/-- Carries out a request. -/
def Request.outcome (files : Files) (input : List String) : Request → Outcome
  | help => .success usage
  | version => .success [versionText]
  | perform config command =>
    match readSettingsFile files config with
    | .error reason => .stop reason
    | .ok settings => command.outcome files input settings

/-- The outcome of arguments that are wrong. -/
def UsageFault.outcome : UsageFault → Outcome
  | nothing => ⟨2, [], usage⟩
  | fault => ⟨2, [], fault.lines⟩

/-- What a command line comes to. -/
def commandLine (files : Files) (input : List String) (arguments : List String) : Outcome :=
  match Request.ofArguments arguments with
  | .error fault => fault.outcome
  | .ok request => request.outcome files input

/-! ## Files and lines -/

/-- The files that a request reads. -/
def Request.paths : Request → List String
  | perform config command =>
    config.toList ++ match command with
      | .check path | .run path _ => [path]
      | _ => []
  | _ => []

/-- A line as it was meant to be: a backspace takes away what a reader takes for the character before
it. -/
def withoutErased (line : String) : String :=
  let kept := (Grapheme.clusters line.toList).foldl
    (fun kept cluster => if cluster = ['\x08'] then kept.tail else cluster :: kept) []
  String.ofList kept.reverse.flatten

/-- The lines of a text as they were meant, the last one also if nothing ends it. -/
def textLines (text : String) : List String :=
  let lines := match (text.splitOn "\n").reverse with
    | "" :: lines => lines.reverse
    | lines => lines.reverse
  lines.map withoutErased

end Formulary
