import Formulary.Number.Numeral
import Formulary.Text.Blank
import Formulary.Text.Name
/-!
# Arguments of the command line

A command line has options, of which some take a value, the name of a command, and the operand of the
command. Options come anywhere before `--`; the settings file may be given before the command and after
it, and the latter counts. `Request.ofArguments` reads the arguments from left to right. The value of an
option is looked at when the next known option or operand comes, so that an argument which is not known
at all is reported before a wrong value right in front of it.
-/

namespace Formulary

/-! ## Options and commands -/

/-- The options. -/
inductive CommandOption where
  | config | var | trace | help | version
deriving DecidableEq

namespace CommandOption

/-- The word after two hyphens that names an option. -/
def word : CommandOption → String
  | config => "config"
  | var => "var"
  | trace => "trace"
  | help => "help"
  | version => "version"

/-- The letter after one hyphen that names an option. -/
def letter? : CommandOption → Option Char
  | config => some 'c'
  | var => some 'v'
  | trace => none
  | help => some 'h'
  | version => some 'V'

/-- Whether an option takes a value. -/
def takesValue : CommandOption → Bool
  | config | var => true
  | _ => false

/-- How an option is shown in messages. -/
def shown : CommandOption → String
  | config => "--config <CONFIG>"
  | var => "--var <NAME=VALUE>"
  | o => "--" ++ o.word

end CommandOption

/-- The commands. -/
inductive CommandName where
  | analyze | eval | check | run | repl
deriving DecidableEq

namespace CommandName

/-- The commands by name. -/
def all : List (String × CommandName) :=
  [("analyze", .analyze), ("eval", .eval), ("check", .check), ("run", .run), ("repl", .repl)]

/-- What the operand of a command is called, if it has one. -/
def operand? : CommandName → Option String
  | analyze | eval => some "<SOURCE>"
  | check | run => some "<FILE>"
  | repl => none

/-- Whether the operand of a command is a file. -/
def takesFile : CommandName → Bool
  | check | run => true
  | _ => false

/-- The options that a command knows. -/
def options : CommandName → List CommandOption
  | eval => [.config, .var, .help]
  | run => [.config, .trace, .help]
  | _ => [.config, .help]

end CommandName

/-- The options before a command. -/
def generalOptions : List CommandOption :=
  [.config, .help, .version]

/-! ## Faults -/

/-- Why a text binds no name. -/
inductive BindingFault where
  | noSign (text : String)
  | badName (name : String)
  | badNumber (name : String) (fault : NumberFault)

/-- The wording of the fault of a binding. -/
def BindingFault.message : BindingFault → String
  | noSign text => "expected NAME=VALUE, got `" ++ text ++ "`"
  | badName name => "`" ++ name ++ "` is not a valid variable name"
  | badNumber name fault => "invalid value for `" ++ name ++ "`: " ++ fault.message

/-- What is wrong with arguments. -/
inductive UsageFault where
  /-- There are none. -/
  | nothing
  | noCommand
  | unknownCommand (name : String)
  | unexpected (argument : String)
  | unexpectedValue (option : CommandOption) (value : String)
  /-- What is named, an option or an operand, has no value or an empty one. -/
  | noValue (named : String)
  | badBinding (text : String) (fault : BindingFault)
  | repeated (option : CommandOption)
  | noOperand (operand : String)

namespace UsageFault

/-- The lines that report what is wrong. -/
def lines : UsageFault → List String
  | nothing => []
  | noCommand => ["error: 'calcprog' requires a subcommand but one was not provided"]
  | unknownCommand name => ["error: unrecognized subcommand '" ++ name ++ "'"]
  | unexpected argument => ["error: unexpected argument '" ++ argument ++ "' found"]
  | unexpectedValue option value =>
    ["error: unexpected value '" ++ value ++ "' for '" ++ option.shown ++
      "' found; no more were expected"]
  | noValue named => ["error: a value is required for '" ++ named ++ "' but none was supplied"]
  | badBinding text fault =>
    ["error: invalid value '" ++ text ++ "' for '" ++ CommandOption.var.shown ++ "': " ++
      fault.message]
  | repeated option =>
    ["error: the argument '" ++ option.shown ++ "' cannot be used multiple times"]
  | noOperand operand =>
    ["error: the following required arguments were not provided:", "  " ++ operand]

end UsageFault

/-! ## Requests -/

/-- A command with what it needs. -/
inductive Command where
  | analyze (source : String)
  | eval (source : String) (bindings : List (String × Float))
  | check (file : String)
  | run (file : String) (trace : Bool)
  | repl

/-- What a command line asks for. -/
inductive Request where
  | help
  | version
  /-- A command under the settings of a file, if one is given. -/
  | perform (config : Option String) (command : Command)

/-- The binding that a text writes as a name, an equality sign and a number. -/
def readBinding (text : String) : Except BindingFault (String × Float) :=
  match text.toList.dropWhile (· ≠ '=') with
  | [] => .error (.noSign text)
  | _ :: value =>
    let name := trim (String.ofList (text.toList.takeWhile (· ≠ '=')))
    if !isName name then .error (.badName name)
    else match readNumber (trim (String.ofList value)) with
      | .ok x => .ok (name, x)
      | .error fault => .error (.badNumber name fault)

/-! ## Reading arguments -/

/-- What has been read but not looked at. -/
inductive Waiting where
  | none
  /-- An option whose value has yet to come. -/
  | value (option : CommandOption)
  | given (option : CommandOption) (value : String)
  | operand (value : String)

/-- What has been read of a command line, before a command or of one. -/
structure ArgumentState where
  /-- The command, once its name has been read. -/
  command : Option CommandName
  waiting : Waiting
  /-- Whether `--` has been read. -/
  escaped : Bool
  config : Option String
  bindings : List (String × Float)
  trace : Bool
  operand : Option String

namespace ArgumentState

/-- Before the first argument, or the first after the name of a command. -/
def initial (command : Option CommandName) : ArgumentState :=
  ⟨command, .none, false, none, [], false, none⟩

/-- The options that are known. -/
def options (s : ArgumentState) : List CommandOption :=
  s.command.elim generalOptions CommandName.options

/-- Gives a value to an option. -/
def assign (s : ArgumentState) (option : CommandOption) (value : String) :
    Except UsageFault ArgumentState :=
  match option with
  | .config =>
    if s.config.isSome then .error (.repeated option)
    else if value = "" then .error (.noValue option.shown)
    else .ok { s with config := some value }
  | _ => match readBinding value with
    | .ok b => .ok { s with bindings := s.bindings ++ [b] }
    | .error fault => .error (.badBinding value fault)

/-- Looks at what waits. -/
def settle (s : ArgumentState) : Except UsageFault ArgumentState :=
  let rest := { s with waiting := .none }
  match s.waiting with
  | .none => .ok rest
  | .value option => .error (.noValue option.shown)
  | .given option value => rest.assign option value
  | .operand value =>
    if value = "" && s.command.any CommandName.takesFile then .error (.noValue "<FILE>")
    else .ok { rest with operand := some value }

/-- Whether a next operand has a place. -/
def takesOperand (s : ArgumentState) : Bool :=
  match s.waiting with
  | .operand _ => false
  | _ => s.operand.isNone && (s.command.bind CommandName.operand?).isSome

/-- What comes of an argument: more is to be read, or the rest does not count. -/
inductive Progress where
  | next (state : ArgumentState)
  | done (request : Request)

/-- Takes an option that has no value. -/
def switch (s : ArgumentState) (option : CommandOption) : Except UsageFault Progress := do
  let s ← s.settle
  match option with
  | .help => return .done .help
  | .version => return .done .version
  | _ => if s.trace then throw (.repeated option) else return .next { s with trace := true }

/-- Takes an argument that begins with two hyphens, from after them. -/
def takeWord (s : ArgumentState) (cs : List Char) : Except UsageFault Progress :=
  let word := String.ofList (cs.takeWhile (· ≠ '='))
  let value? := match cs.dropWhile (· ≠ '=') with
    | [] => none
    | _ :: value => some (String.ofList value)
  match s.options.find? fun o => o.word = word with
  | none => .error (.unexpected ("--" ++ word))
  | some option =>
    match option.takesValue, value? with
    | true, some value => do return .next (← (← s.settle).assign option value)
    | true, none => do return .next { ← s.settle with waiting := .value option }
    | false, some value => .error (.unexpectedValue option value)
    | false, none => s.switch option

/-- Takes the letters after one hyphen. -/
def takeLetters (s : ArgumentState) : List Char → Except UsageFault Progress
  | [] => .ok (.next s)
  | c :: cs =>
    match s.options.find? fun o => o.letter? = some c with
    | none => .error (.unexpected (String.ofList ['-', c]))
    | some option =>
      if option.takesValue then
        match cs with
        | [] => do return .next { ← s.settle with waiting := .value option }
        | '=' :: value => do return .next (← (← s.settle).assign option (String.ofList value))
        | value => do return .next (← (← s.settle).assign option (String.ofList value))
      else match s.switch option with
        | .ok (.next s) => s.takeLetters cs
        | result => result

/-- Takes an argument that is no option. -/
def takeOperand (s : ArgumentState) (argument : String) : Except UsageFault Progress :=
  if s.takesOperand then do return .next { ← s.settle with waiting := .operand argument }
  else match s.command with
    | some _ => .error (.unexpected argument)
    | none =>
      if s.escaped && ((CommandName.all.lookup argument).isSome || argument = "help") then
        .error (.unexpected argument)
      else .error (.unknownCommand argument)

/-- Takes an argument. -/
def take (s : ArgumentState) (argument : String) : Except UsageFault Progress :=
  if s.escaped then s.takeOperand argument
  else match argument.toList with
    | ['-', '-'] => .ok (.next { s with escaped := true })
    | '-' :: '-' :: cs => s.takeWord cs
    | '-' :: c :: cs => s.takeLetters (c :: cs)
    | _ => match s.waiting with
      | .value option => .ok (.next { s with waiting := .given option argument })
      | _ => s.takeOperand argument

/-- Whether an argument is looked at as the name of a command. -/
def awaitsCommand (s : ArgumentState) : Bool :=
  match s.waiting with
  | .value _ => false
  | _ => !s.escaped

/-- The command of a state after the last argument. -/
def finish (s : ArgumentState) (name : CommandName) : Except UsageFault Command :=
  match name, s.operand with
  | .repl, _ => .ok .repl
  | .analyze, some source => .ok (.analyze source)
  | .eval, some source => .ok (.eval source s.bindings)
  | .check, some file => .ok (.check file)
  | .run, some file => .ok (.run file s.trace)
  | name, none => .error (.noOperand (name.operand?.getD ""))

/-- Reads the arguments of a command. -/
def readCommand (s : ArgumentState) (name : CommandName) :
    List String → Except UsageFault (Request ⊕ ArgumentState × Command)
  | [] => do
    let s ← s.settle
    return .inr (s, ← s.finish name)
  | argument :: rest => do
    match ← s.take argument with
    | .next s => s.readCommand name rest
    | .done request => return .inl request

/-- What is asked for help about: the names must be those of commands, one at most. -/
def readHelp : List String → Except UsageFault Request
  | [] => .ok .help
  | [name] =>
    if (CommandName.all.lookup name).isSome || name = "help" then .ok .help
    else .error (.unknownCommand name)
  | name :: other :: _ =>
    if (CommandName.all.lookup name).isSome || name = "help" then .error (.unknownCommand other)
    else .error (.unknownCommand name)

/-- Reads arguments up to the name of a command, and on. -/
def readGeneral (s : ArgumentState) : List String → Except UsageFault Request
  | [] => do
    let s ← s.settle
    throw (if s.config.isNone then .nothing else .noCommand)
  | argument :: rest =>
    let go : Except UsageFault Request := do
      match ← s.take argument with
      | .next s => s.readGeneral rest
      | .done request => return request
    if s.awaitsCommand then
      match CommandName.all.lookup argument with
      | some name => do
        match ← (initial (some name)).readCommand name rest with
        | .inl request => return request
        | .inr (inner, command) =>
          let s ← s.settle
          return .perform (inner.config.or s.config) command
      | none => if argument = "help" then readHelp rest else go
    else go

end ArgumentState

/-- What arguments ask for. -/
def Request.ofArguments (arguments : List String) : Except UsageFault Request :=
  (ArgumentState.initial none).readGeneral arguments

end Formulary
