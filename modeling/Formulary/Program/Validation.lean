import Formulary.Program
/-!
# What can be wrong with a program

The structure of a program is checked before anything is computed: the kinds of violation come in a
fixed order, and within a kind the first place counts (`Program.violation?`). The wording of a violation
is in `Violation.message`.
-/

namespace Formulary

/-- Why a step cannot refer to a name. -/
inductive ReferenceFault where
  /-- The name belongs to an earlier step that is blank. -/
  | blankStep
  /-- The name is the step's own. -/
  | itself
  /-- The name belongs to a later step. -/
  | laterStep
  /-- The name belongs to nothing. -/
  | unknownName
deriving DecidableEq

/-- The wording of the fault of a reference. -/
def ReferenceFault.message (name : String) : ReferenceFault → String
  | blankStep => "references \"" ++ name ++ "\", whose expression is empty"
  | itself => "references itself as \"" ++ name ++ "\""
  | laterStep => "references \"" ++ name ++ "\" before it is computed"
  | unknownName => "references unknown name \"" ++ name ++ "\""

/-- The kinds of violation. -/
inductive ViolationKind where
  | noSteps | invalidInput | noOutputs | incompleteStep | unresolvedOutput | repeatedName
  | unresolvedStep
deriving DecidableEq

/-- A rule that a program breaks, and where: the position among the inputs, steps or outputs. -/
inductive Violation where
  | noSteps
  | unnamedInput (index : Nat)
  | invalidName (index : Nat) (name : String)
  | noInitial (index : Nat) (name : String)
  | noOutputs
  | unnamedStep (index : Nat)
  | noDefinition (index : Nat) (name : String)
  | noValue (index : Nat) (name : String)
  | unknownStep (index : Nat) (name step : String)
  | repeatedInput (index : Nat) (name : String)
  | repeatedStep (index : Nat) (name : String)
  | badReference (index : Nat) (name reference : String) (fault : ReferenceFault)
deriving DecidableEq

namespace Violation

/-- The kind of a violation. -/
def kind : Violation → ViolationKind
  | noSteps => .noSteps
  | unnamedInput _ | invalidName .. | noInitial .. => .invalidInput
  | noOutputs => .noOutputs
  | unnamedStep _ | noDefinition .. => .incompleteStep
  | noValue .. | unknownStep .. => .unresolvedOutput
  | repeatedInput .. | repeatedStep .. => .repeatedName
  | badReference .. => .unresolvedStep

/-- The position of a violation, unless it is that a part is missing. -/
def index? : Violation → Option Nat
  | noSteps | noOutputs => none
  | unnamedInput i | invalidName i _ | noInitial i _ | unnamedStep i | noDefinition i _
  | noValue i _ | unknownStep i _ _ | repeatedInput i _ | repeatedStep i _ | badReference i _ _ _ =>
    some i

/-- The wording of a violation. -/
def message : Violation → String
  | noSteps => "Program has no steps"
  | unnamedInput i => "Input " ++ toString i ++ " has no name"
  | invalidName i name =>
    "Input " ++ toString i ++ " name \"" ++ name ++ "\" is not a valid identifier"
  | noInitial _ name => "Input \"" ++ name ++ "\" has no default value"
  | noOutputs => "Program has no outputs"
  | unnamedStep i => "Step " ++ toString i ++ " has no name"
  | noDefinition _ name => "Step \"" ++ name ++ "\" has no expression"
  | noValue _ name => "Output \"" ++ name ++ "\" has no value"
  | unknownStep _ name step => "Output \"" ++ name ++ "\" references unknown step \"" ++ step ++ "\""
  | repeatedInput _ name => "Input name \"" ++ name ++ "\" is used more than once"
  | repeatedStep _ name =>
    "Step name \"" ++ name ++ "\" is already used by an input or earlier step"
  | badReference _ name v fault => "Step \"" ++ name ++ "\" " ++ fault.message v

end Violation

/-! ## Searching for violations -/

/-- The first answer that a question about the members of a list and their positions gets. -/
def firstAt? {α β : Type} (ask : Nat → α → Option β) (as : List α) : Option β :=
  as.zipIdx.findSome? fun a => ask a.2 a.1

/-- The first name of a list that is among those given or earlier in the list, with its position. -/
def firstRepeated? (seen : List String) (index : Nat) : List String → Option (Nat × String)
  | [] => none
  | name :: names =>
    if seen.contains name then some (index, name)
    else firstRepeated? (name :: seen) (index + 1) names

namespace Program

/-- The names of the inputs. -/
def inputNames (p : Program) : List String :=
  p.inputs.map Input.name

/-- The names of the steps. -/
def stepNames (p : Program) : List String :=
  p.steps.map Step.name

/-- What is wrong with an input by itself. -/
def Input.violation? (index : Nat) (i : Input) : Option Violation :=
  if !isName i.name then
    some (if i.name = "" then .unnamedInput index else .invalidName index i.name)
  else if i.initial.isNone then some (.noInitial index i.name)
  else none

/-- What is wrong with a step by itself. -/
def Step.violation? (index : Nat) (s : Step) : Option Violation :=
  if s.name = "" then some (.unnamedStep index)
  else if s.definition.isNone then some (.noDefinition index s.name)
  else none

/-- What is wrong with an output among steps with the names given. -/
def Output.violation? (steps : List String) (index : Nat) (o : Output) : Option Violation :=
  match o.value with
  | none => some (.noValue index o.name)
  | some d => match d.plainName? with
    | some name => if steps.contains name then none else some (.unknownStep index o.name name)
    | none => none

/-- The first input or step that has the name of another before it. -/
def repetition? (p : Program) : Option Violation :=
  match firstRepeated? [] 0 p.inputNames with
  | some (i, name) => some (.repeatedInput i name)
  | none => (firstRepeated? p.inputNames 0 p.stepNames).map fun r => .repeatedStep r.1 r.2

/-- What is wrong with a reference from a step with the name given. Names that can be seen already are
marked by whether they have a number; the last list has the names of all steps. -/
def referenceFault? (step : String) (visible : List (String × Bool)) (declared : List String)
    (name : String) : Option ReferenceFault :=
  match visible.lookup name with
  | some true => none
  | some false => some .blankStep
  | none =>
    if name = step then some .itself
    else if declared.contains name then some .laterStep
    else some .unknownName

/-- The first reference of a definition that is wrong. -/
def referenceViolation? (index : Nat) (step : String) (visible : List (String × Bool))
    (declared : List String) (d : Definition) : Option Violation :=
  d.variableNames.findSome? fun v =>
    (referenceFault? step visible declared v).map (.badReference index step v)

/-- The first wrong reference among steps, where `visible` holds what they can see already. -/
def firstBadReference? (visible : List (String × Bool)) (declared : List String) (index : Nat) :
    List Step → Option Violation
  | [] => none
  | s :: steps =>
    match s.definition with
    | none => firstBadReference? visible declared (index + 1) steps
    | some d =>
      match referenceViolation? index s.name visible declared d with
      | some v => some v
      | none => firstBadReference? ((s.name, !d.isBlank) :: visible) declared (index + 1) steps

/-- The first rule that a program breaks. -/
def violation? (settings : Settings) (p : Program) : Option Violation :=
  if p.steps.isEmpty then some .noSteps
  else (firstAt? Input.violation? p.inputs).or <|
    if p.outputs.isEmpty then some .noOutputs
    else (firstAt? Step.violation? p.steps).or <|
      (firstAt? (Output.violation? p.stepNames) p.outputs).or <|
      p.repetition?.or <|
      if settings.strictReferences then
        firstBadReference? (p.inputNames.map fun name => (name, true)) p.stepNames 0 p.steps
      else none

end Program

end Formulary
