import Formulary.Json.Reader
import Formulary.Program.Run
/-!
# Traces and violations as JSON
-/

namespace Formulary

open Json (Reader Field Shape)

/-! ## Violations -/

/-- The words for the kinds of violation. -/
def ViolationKind.words : List (String × ViolationKind) :=
  [("NO_STEPS", .noSteps), ("INVALID_INPUT", .invalidInput), ("NO_OUTPUTS", .noOutputs),
    ("STEP_EXPR_MISSING", .incompleteStep), ("UNRESOLVED_OUTPUT_REF", .unresolvedOutput),
    ("DUPLICATE_NAME", .repeatedName), ("UNRESOLVED_STEP_REF", .unresolvedStep)]

namespace ViolationKind

/-- The word for a kind of violation. -/
def word : ViolationKind → String
  | noSteps => "NO_STEPS"
  | invalidInput => "INVALID_INPUT"
  | noOutputs => "NO_OUTPUTS"
  | incompleteStep => "STEP_EXPR_MISSING"
  | unresolvedOutput => "UNRESOLVED_OUTPUT_REF"
  | repeatedName => "DUPLICATE_NAME"
  | unresolvedStep => "UNRESOLVED_STEP_REF"

theorem lookup_word (k : ViolationKind) : words.lookup k.word = some k := by
  cases k <;> decide

/-- The JSON form of a kind of violation. -/
def toJson (k : ViolationKind) : Json :=
  .string k.word

/-- Reads a kind of violation. -/
def reader : Reader ViolationKind :=
  Reader.enumeration words

end ViolationKind

/-- What is told of a violation. -/
structure Notice where
  kind : ViolationKind
  message : String
  index : Option Nat

/-- The notice of a violation. -/
def Violation.notice (v : Violation) : Notice :=
  ⟨v.kind, v.message, v.index?⟩

namespace Notice

/-- A notice in one line. -/
def text (n : Notice) : String :=
  n.kind.word ++ ": " ++ n.message

/-- What has been read of a notice. -/
structure Draft where
  kind : Option ViolationKind
  message : Option String
  index : Option (Option Nat)

/-- The record of a notice. -/
def shape : Shape Draft Notice where
  name := "struct ValidationError"
  fields := [
    .filling "code" .required Draft.kind (fun k d => { d with kind := some k })
      ViolationKind.reader,
    .filling "message" .required Draft.message (fun s d => { d with message := some s })
      Reader.string,
    .filling "index" .optional Draft.index (fun n d => { d with index := some n })
      (Reader.option (Reader.unsigned "usize"))]
  strict := false
  blank := ⟨none, none, none⟩
  build d := do
    return ⟨← Shape.demanded "code" d.kind, ← Shape.demanded "message" d.message, d.index.join⟩

/-- The JSON form of a notice; an absent position is left out. -/
def toJson (n : Notice) : Json :=
  .object ([("code", n.kind.toJson), ("message", .string n.message)] ++
    Json.memberOf "index" .ofNat n.index)

/-- Reads a notice. -/
def reader : Reader Notice :=
  shape.reader

end Notice

/-- The wording of why a run has no result. -/
def RunFault.message : RunFault → String
  | invalid v => v.notice.text
  | failed index name fault =>
    "Step " ++ toString index ++ " (" ++ name ++ ") failed: " ++ fault.message

/-! ## Records of steps and outputs -/

namespace StepRecord

/-- What has been read of the record of a step. -/
structure Draft where
  name : Option String
  value : Option (Option Float)

/-- The record of a step and its number. -/
def shape : Shape Draft StepRecord where
  name := "struct StepTrace"
  fields := [
    .filling "name" .required Draft.name (fun s d => { d with name := some s }) Reader.string,
    .filling "value" .optional Draft.value (fun x d => { d with value := some x })
      (Reader.option Reader.float)]
  strict := false
  blank := ⟨none, none⟩
  build d := do return ⟨← Shape.demanded "name" d.name, d.value.join⟩

/-- The JSON form of the record of a step. -/
def toJson (s : StepRecord) : Json :=
  .object [("name", .string s.name), ("value", .ofOption Json.ofFloat s.value)]

/-- Reads the record of a step. -/
def reader : Reader StepRecord :=
  shape.reader

end StepRecord

namespace OutputRecord

/-- What has been read of the record of an output. -/
structure Draft where
  name : Option String
  value : Option (Option Float)
  error : Option (Option String)

/-- The record of an output and what came of it. -/
def shape : Shape Draft OutputRecord where
  name := "struct OutputResult"
  fields := [
    .filling "output_name" .required Draft.name (fun s d => { d with name := some s })
      Reader.string,
    .filling "value" .optional Draft.value (fun x d => { d with value := some x })
      (Reader.option Reader.float),
    .filling "error" .optional Draft.error (fun s d => { d with error := some s })
      (Reader.option Reader.string)]
  strict := false
  blank := ⟨none, none, none⟩
  build d := do return ⟨← Shape.demanded "output_name" d.name, d.value.join, d.error.join⟩

/-- The JSON form of the record of an output. -/
def toJson (o : OutputRecord) : Json :=
  .object [("output_name", .string o.name), ("value", .ofOption Json.ofFloat o.value),
    ("error", .ofOption Json.string o.error)]

/-- Reads the record of an output. -/
def reader : Reader OutputRecord :=
  shape.reader

end OutputRecord

/-! ## Traces -/

/-- The JSON form of a scope: an object with its names as keys. -/
def Scope.toJson (s : Scope) : Json :=
  .object (s.bindings.map fun b => (b.1, Json.ofFloat b.2))

namespace Trace

/-- What has been read of a trace. -/
structure Draft where
  steps : Option (List StepRecord)
  scope : Option (List (String × Float))
  outputs : Option (List OutputRecord)

/-- The record of a run. -/
def shape : Shape Draft Trace where
  name := "struct RunTrace"
  fields := [
    .filling "steps" .required Draft.steps (fun ss d => { d with steps := some ss })
      (Reader.list StepRecord.reader),
    .filling "scope" .required Draft.scope (fun s d => { d with scope := some s })
      (Reader.map Reader.float),
    .filling "outputs" .required Draft.outputs (fun os d => { d with outputs := some os })
      (Reader.list OutputRecord.reader)]
  strict := false
  blank := ⟨none, none, none⟩
  build d := do
    return ⟨← Shape.demanded "steps" d.steps, .ofList (← Shape.demanded "scope" d.scope),
      ← Shape.demanded "outputs" d.outputs⟩

/-- The JSON form of a trace. -/
def toJson (t : Trace) : Json :=
  .object [("steps", .array (t.steps.map StepRecord.toJson)), ("scope", t.scope.toJson),
    ("outputs", .array (t.outputs.map OutputRecord.toJson))]

/-- Reads a trace. -/
def reader : Reader Trace :=
  shape.reader

end Trace

end Formulary
