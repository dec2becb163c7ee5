import Formulary.Diagnostic
import Formulary.Formula
import Formulary.Number.Layout
/-!
# Sessions

A session builds a scope line by line. A line binds a name to the value of a source, shows the value of
a source, or is a command; `Session.respond` takes one line, and `Session.transcript` all of them up to
the end of the session. A line that fails leaves the scope as it was.
-/

namespace Formulary

/-- The version that the program says it has. -/
def programVersion : String := "0.1.0"

/-- What a line asks for. -/
inductive SessionLine where
  | empty
  /-- A command, with all of its line. -/
  | command (name argument line : String)
  /-- A name to bind to the value of a source. -/
  | bind (name source : String)
  /-- A source whose value is shown. -/
  | source (text : String)
deriving DecidableEq

namespace SessionLine

/-- A text cut at the first of a character, if there is one. -/
def cutAt? (c : Char) (cs : List Char) : Option (List Char × List Char) :=
  match cs.dropWhile (· ≠ c) with
  | [] => none
  | _ :: rest => some (cs.takeWhile (· ≠ c), rest)

/-- What a line without blanks at its ends asks for. An equality sign binds the name before it, if there
is a name and if it is not doubled. -/
def ofTrimmed (line : String) : SessionLine :=
  match line.toList with
  | [] => empty
  | ':' :: _ =>
    match cutAt? ' ' line.toList with
    | some (name, argument) => command (String.ofList name) (String.ofList argument) line
    | none => command line "" line
  | cs =>
    match cutAt? '=' cs with
    | none => source line
    | some (left, right) =>
      let name := trim (String.ofList left)
      if isName name && right.head? ≠ some '=' then bind name (trim (String.ofList right))
      else source line

/-- What a line asks for. -/
def ofText (line : String) : SessionLine :=
  ofTrimmed (trim line)

end SessionLine

/-- The lines that a session answers with, the diagnostics apart, and whether it ends. -/
structure Reply where
  lines : List String
  diagnostics : List String
  ends : Bool

namespace Reply

/-- An answer in the lines given. -/
def say (lines : List String) : Reply :=
  ⟨lines, [], false⟩

/-- An answer about a fault. -/
def fail (fault : Fault) : Reply :=
  ⟨[], fault.diagnostic, false⟩

end Reply

/-- The settings of a session and the scope built so far. -/
structure Session where
  settings : Settings
  scope : Scope

namespace Session

/-- A session that begins. -/
def start (settings : Settings) : Session :=
  ⟨settings, .empty⟩

/-- What a session says when it begins. -/
def greeting : List String :=
  ["calcprog REPL " ++ programVersion, "Type :help for help, :quit to exit.", ""]

/-- What a session says when it ends. -/
def farewell : List String :=
  ["Goodbye!"]

/-- What a session says about itself. -/
def help : List String := [
  "Commands:",
  "  :help, :h, :?   Show this help",
  "  :quit, :q       Exit the REPL",
  "  :scope          List bindings in order",
  "  :vars <expr>    Show the variables an expression uses",
  "  :reset          Drop every binding",
  "",
  "You can enter:",
  "  - Bindings: rate = 0.07",
  "  - Expressions over bindings: \x7b\x7brate\x7d\x7d * 100",
  "  - Builtins: sqrt(2), max(1, 2, 3), pi, 4!"]

/-- The commands. -/
inductive Command where
  | quit | help | scope | vars | reset
deriving DecidableEq

/-- The commands by name. -/
def commands : List (String × Command) :=
  [(":quit", .quit), (":q", .quit), (":exit", .quit), (":help", .help), (":h", .help),
    (":?", .help), (":scope", .scope), (":vars", .vars), (":reset", .reset)]

/-- A binding as it is shown. -/
def bindingText (name : String) (x : Float) : String :=
  name ++ " = " ++ numberText x

/-- The scope as it is shown. -/
def scopeLines (scope : Scope) : List String :=
  match scope.bindings with
  | [] => ["(empty)"]
  | bindings => bindings.map fun b => "  " ++ bindingText b.1 b.2

/-- What is said of the variables of a source. -/
def variablesLines (settings : Settings) (source : String) : List String :=
  let a := analyze settings source
  ("variables: " ++ ", ".intercalate a.variableNames) :: (a.error.map ("error: " ++ ·)).toList

/-- Carries out a command. -/
def obey (s : Session) (argument : String) : Command → Session × Reply
  | .quit => (s, ⟨farewell, [], true⟩)
  | .help => (s, .say help)
  | .scope => (s, .say (scopeLines s.scope))
  | .vars => (s, .say (variablesLines s.settings argument))
  | .reset => ({ s with scope := .empty }, .say [])

/-- Answers what a line asks for. -/
def answer (s : Session) : SessionLine → Session × Reply
  | .empty => (s, .say [])
  | .command name argument line =>
    match commands.lookup name with
    | some c => s.obey argument c
    | none => (s, .say ["Unknown command: " ++ line, "Type :help for help."])
  | .bind name source =>
    match evaluateSource s.settings source s.scope with
    | .ok x => ({ s with scope := s.scope.insert name x }, .say [bindingText name x])
    | .error fault => (s, .fail fault)
  | .source text =>
    match evaluateSource s.settings text s.scope with
    | .ok x => (s, .say [numberText x])
    | .error fault => (s, .fail fault)

/-- Answers a line. -/
def respond (s : Session) (line : String) : Session × Reply :=
  s.answer (.ofText line)

/-- The replies to lines until the session ends, at the latest with the last of them. -/
def transcript (s : Session) : List String → List Reply
  | [] => [⟨farewell, [], true⟩]
  | line :: lines =>
    let (next, reply) := s.respond line
    if reply.ends then [reply] else reply :: next.transcript lines

end Session

end Formulary
