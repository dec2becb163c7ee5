import Formulary.Program.Validation
/-!
# Running a program

A run starts from the numbers of the inputs and evaluates the steps in order; each that is not blank
binds its name in the scope of those after it. The outputs are evaluated in the scope at the end. A step
that fails ends the run, an output that fails is reported among the others. `Program.run` keeps all that
was computed.
-/

namespace Formulary

/-- A step and its number; a blank one has none. -/
structure StepRecord where
  name : String
  value : Option Float

/-- An output with its number or the message of what is wrong with it. -/
structure OutputRecord where
  name : String
  value : Option Float
  error : Option String

/-- Whether an output has no error. -/
def OutputRecord.isOk (o : OutputRecord) : Bool :=
  o.error.isNone

/-- What a run computed. -/
structure Trace where
  steps : List StepRecord
  /-- The inputs, then the steps that are not blank. -/
  scope : Scope
  outputs : List OutputRecord

/-- Why a run has no result. -/
inductive RunFault where
  | invalid (violation : Violation)
  | failed (index : Nat) (name : String) (fault : Fault)

namespace Program

/-- The scope in which the first step is evaluated. -/
def startScope (inputs : List Input) : Scope :=
  inputs.foldl (fun scope i => match i.start? with
    | some x => scope.insert i.name x
    | none => scope) .empty

/-- The number of a step, which a blank one does not have. -/
def Step.evaluate (s : Step) (settings : Settings) (scope : Scope) : Except Fault (Option Float) :=
  match s.definition with
  | none => .error .blank
  | some d => if d.isBlank then .ok none else some <$> d.evaluate settings scope

/-- A scope after a step. -/
def Step.extend (s : Step) (scope : Scope) : Option Float → Scope
  | some x => scope.insert s.name x
  | none => scope

/-- The records of steps, the first of which has the position given, and the scope after them. -/
def runSteps (settings : Settings) (index : Nat) (scope : Scope) :
    List Step → Except RunFault (List StepRecord × Scope)
  | [] => .ok ([], scope)
  | s :: steps =>
    match s.evaluate settings scope with
    | .error fault => .error (.failed index s.name fault)
    | .ok value => do
      let (records, final) ← runSteps settings (index + 1) (s.extend scope value) steps
      return (⟨s.name, value⟩ :: records, final)

/-- The number of an output before it is made a value of its type. -/
def Output.evaluate (o : Output) (settings : Settings) (scope : Scope) : Except Fault Float :=
  match o.value with
  | none => .error .blank
  | some d => match d.plainName? with
    | some name => match scope.get? name with
      | some x => .ok x
      | none => .error (.unbound name none none)
    | none => d.evaluate settings scope

/-- The record of an output. -/
def Output.record (o : Output) (settings : Settings) (scope : Scope) : OutputRecord :=
  match o.evaluate settings scope with
  | .ok x => ⟨o.name, some (o.type.normalize x), none⟩
  | .error fault => ⟨o.name, none, some fault.message⟩

/-- Runs a program. -/
def run (settings : Settings) (p : Program) : Except RunFault Trace :=
  match p.violation? settings with
  | some v => .error (.invalid v)
  | none => do
    let (records, scope) ← runSteps settings 0 (startScope p.inputs) p.steps
    return ⟨records, scope, p.outputs.map fun o => o.record settings scope⟩

end Program

end Formulary
