import Formulary.Formula
/-!
# Programs

A program is a calculation in three parts: inputs with the numbers they start from, steps that compute
one number after the other, and outputs that show what came of it. A step or an output is defined by a
source or by a tree; a step whose source is blank has not been written yet.
-/

namespace Formulary

/-- The types of numbers in programs. -/
inductive NumberType where
  | integer | float | boolean
deriving DecidableEq

/-- A number as a value of a type: integers are rounded, and booleans are one or zero. -/
def NumberType.normalize : NumberType → Float → Float
  | integer, x => roundHalfAway x
  | float, x => x
  | boolean, x => Arithmetic.ofBool (Arithmetic.truthy x)

/-- What an input starts from. -/
inductive Initial where
  | flag (value : Bool)
  | number (value : Float)

/-- The number that an input starts from. -/
def Initial.toFloat : Initial → Float
  | flag b => Arithmetic.ofBool b
  | number x => x

/-- How a step or an output is defined. -/
inductive Definition where
  | source (text : String)
  | tree (value : Json)

namespace Definition

/-- Whether nothing has been written yet. -/
def isBlank : Definition → Bool
  | source text => isBlankText text
  | tree _ => false

/-- The distinct names of the variables that a definition refers to, in ascending order. -/
def variableNames : Definition → List String
  | source text => variablesOf text
  | tree value => Tree.variableNames value

/-- The formula of a definition. -/
def formula (settings : Settings) : Definition → Except Fault Formula
  | source text => Formula.ofSource settings text
  | tree value => Formula.ofTree settings value

/-- The number that a definition comes to in a scope. -/
def evaluate (d : Definition) (settings : Settings) (scope : Scope) : Except Fault Float := do
  (← d.formula settings).evaluate scope

/-- The name that a source is, blanks around it apart, if it is one. -/
def plainName? : Definition → Option String
  | source text => if isName (trim text) then some (trim text) else none
  | tree _ => none

end Definition

namespace Program

/-- A named number to start from. -/
structure Input where
  name : String
  description : String
  type : NumberType
  group : Option String
  units : Option String
  /-- The increment by which an editor changes the number; no calculation uses it. -/
  step : Option Float
  initial : Option Initial

/-- A named number to compute. -/
structure Step where
  name : String
  description : String
  definition : Option Definition

/-- A number to show. -/
structure Output where
  name : String
  description : String
  group : Option String
  type : NumberType
  units : Option String
  value : Option Definition

/-- The group of what has none. -/
def standardGroup : String := "General"

namespace Input

/-- An input with a name, a type and what it starts from. -/
def of (name : String) (type : NumberType) (initial : Initial) : Input :=
  ⟨name, "", type, none, none, none, some initial⟩

/-- The group in which an input is shown. -/
def shownGroup (i : Input) : String :=
  i.group.getD standardGroup

/-- The number that an input starts from. -/
def start? (i : Input) : Option Float :=
  i.initial.map Initial.toFloat

/-- What an editor writes back: an integer starts from the integral part of its number. -/
def normalized (i : Input) : Input :=
  match i.type, i.initial with
  | .integer, some (.number x) => { i with initial := some (.number (truncate x)) }
  | _, _ => i

end Input

/-- A step with a name and a definition. -/
def Step.of (name : String) (definition : Definition) : Step :=
  ⟨name, "", some definition⟩

namespace Output

/-- An output with a name, a type and a source. -/
def of (name : String) (type : NumberType) (source : String) : Output :=
  ⟨name, "", none, type, none, some (.source source)⟩

/-- The group in which an output is shown. -/
def shownGroup (o : Output) : String :=
  o.group.getD standardGroup

end Output

end Program

/-- Inputs, the steps that start from them, and what is shown of the result. -/
structure Program where
  inputs : List Program.Input
  steps : List Program.Step
  outputs : List Program.Output

/-- The program without parts. -/
def Program.empty : Program :=
  ⟨[], [], []⟩

end Formulary
