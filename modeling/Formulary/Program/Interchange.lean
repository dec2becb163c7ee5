import Formulary.Formula.Interchange
import Formulary.Program
/-!
# Programs as JSON

The interchange form of programs. A record is written as an object with its fields in order, of which
the absent ones are `null` or, where noted at the writer, left out; it is read from an object or from an
array, and most fields may be missing.
-/

namespace Formulary

open Json (Reader Field Shape)

/-! ## Number types -/

/-- The words for the types of numbers. -/
def NumberType.words : List (String × NumberType) :=
  [("integer", .integer), ("float", .float), ("boolean", .boolean)]

namespace NumberType

/-- The word for a type. -/
def word : NumberType → String
  | integer => "integer"
  | float => "float"
  | boolean => "boolean"

theorem lookup_word (t : NumberType) : words.lookup t.word = some t := by
  cases t <;> decide

/-- The JSON form of a type. -/
def toJson (t : NumberType) : Json :=
  .string t.word

/-- Reads a type. -/
def reader : Reader NumberType :=
  Reader.enumeration words

end NumberType

/-! ## What inputs start from -/

namespace Initial

/-- The JSON form of what an input starts from. -/
def toJson : Initial → Json
  | flag b => .bool b
  | number x => .ofFloat x

/-- Reads what an input starts from. -/
def reader : Reader Initial :=
  Reader.untagged "DefaultValue" fun
    | .bool b => some (.flag b)
    | .number n => some (.number n.toFloat)
    | _ => none

end Initial

/-! ## Definitions -/

namespace Definition

/-- The JSON form of the definition of a step: a source has a version. -/
def toStepJson : Definition → Json
  | source text => StoredSource.toJson text
  | tree v => v

/-- Reads the definition of a step: an object is a source with a version, anything else a tree. -/
def stepReader : Reader Definition := fun depth d => do
  let v ← Reader.json depth d
  if v.isObject then source <$> Json.readValue StoredSource.reader v else return tree v

/-- The JSON form of the definition of an output: a source is a string. -/
def toOutputJson : Definition → Json
  | source text => .string text
  | tree v => v

/-- Reads the definition of an output: a string is a source, anything else but an object a tree. -/
def outputReader : Reader Definition :=
  Reader.untagged "OutputValue" fun
    | .string s => some (.source s)
    | .object _ => none
    | v => some (.tree v)

end Definition

namespace Program

/-! ## Inputs -/

namespace Input

/-- What has been read of an input. -/
structure Draft where
  name : Option String
  description : Option String
  type : Option NumberType
  group : Option (Option String)
  units : Option (Option String)
  step : Option (Option Float)
  initial : Option (Option Initial)

/-- The record of an input. -/
def shape : Shape Draft Input where
  name := "struct ProgramInput"
  fields := [
    .filling "name" .defaulted Draft.name (fun s d => { d with name := some s }) Reader.string,
    .filling "description" .defaulted Draft.description
      (fun s d => { d with description := some s }) Reader.string,
    .filling "type" .required Draft.type (fun t d => { d with type := some t }) NumberType.reader,
    .filling "group" .defaulted Draft.group (fun s d => { d with group := some s })
      (Reader.option Reader.string),
    .filling "units" .defaulted Draft.units (fun s d => { d with units := some s })
      (Reader.option Reader.string),
    .filling "step" .defaulted Draft.step (fun x d => { d with step := some x })
      (Reader.option Reader.float),
    .filling "default" .defaulted Draft.initial (fun x d => { d with initial := some x })
      (Reader.option Initial.reader)]
  strict := false
  blank := ⟨none, none, none, none, none, none, none⟩
  build d := do
    return ⟨d.name.getD "", d.description.getD "", ← Shape.demanded "type" d.type, d.group.join,
      d.units.join, d.step.join, d.initial.join⟩

/-- The JSON form of an input; an absent group, unit or increment is left out. -/
def toJson (i : Input) : Json :=
  .object ([("name", .string i.name), ("description", .string i.description),
    ("type", i.type.toJson)] ++ Json.memberOf "group" .string i.group ++
    Json.memberOf "units" .string i.units ++ Json.memberOf "step" .ofFloat i.step ++
    [("default", .ofOption Initial.toJson i.initial)])

/-- Reads an input. -/
def reader : Reader Input :=
  shape.reader

end Input

/-! ## Steps -/

namespace Step

/-- What has been read of a step. -/
structure Draft where
  name : Option String
  description : Option String
  definition : Option (Option Definition)

/-- The record of a step. -/
def shape : Shape Draft Step where
  name := "struct ProgramStep"
  fields := [
    { Field.filling "name" .defaulted Draft.name (fun s d => { d with name := some s })
        Reader.string with aliases := ["let"] },
    .filling "description" .defaulted Draft.description
      (fun s d => { d with description := some s }) Reader.string,
    { Field.filling "expression" .defaulted Draft.definition
        (fun e d => { d with definition := some e }) (Reader.option Definition.stepReader) with
      aliases := ["expr"] }]
  strict := false
  blank := ⟨none, none, none⟩
  build d := .ok ⟨d.name.getD "", d.description.getD "", d.definition.join⟩

/-- The JSON form of a step. -/
def toJson (s : Step) : Json :=
  .object [("name", .string s.name), ("description", .string s.description),
    ("expression", .ofOption Definition.toStepJson s.definition)]

/-- Reads a step. -/
def reader : Reader Step :=
  shape.reader

end Step

/-! ## Outputs -/

namespace Output

/-- What has been read of an output. -/
structure Draft where
  name : Option String
  description : Option String
  group : Option (Option String)
  type : Option NumberType
  units : Option (Option String)
  value : Option (Option Definition)

/-- The record of an output. -/
def shape : Shape Draft Output where
  name := "struct ProgramOutput"
  fields := [
    .filling "name" .defaulted Draft.name (fun s d => { d with name := some s }) Reader.string,
    .filling "description" .defaulted Draft.description
      (fun s d => { d with description := some s }) Reader.string,
    .filling "group" .defaulted Draft.group (fun s d => { d with group := some s })
      (Reader.option Reader.string),
    .filling "type" .defaulted Draft.type (fun t d => { d with type := some t }) NumberType.reader,
    .filling "units" .defaulted Draft.units (fun s d => { d with units := some s })
      (Reader.option Reader.string),
    .filling "value" .defaulted Draft.value (fun e d => { d with value := some e })
      (Reader.option Definition.outputReader)]
  strict := false
  blank := ⟨none, none, none, none, none, none⟩
  build d := .ok ⟨d.name.getD "", d.description.getD "", d.group.join, d.type.getD .float,
    d.units.join, d.value.join⟩

/-- The JSON form of an output; an absent group or unit is left out. -/
def toJson (o : Output) : Json :=
  .object ([("name", .string o.name), ("description", .string o.description)] ++
    Json.memberOf "group" .string o.group ++ [("type", o.type.toJson)] ++
    Json.memberOf "units" .string o.units ++
    [("value", .ofOption Definition.toOutputJson o.value)])

/-- Reads an output. -/
def reader : Reader Output :=
  shape.reader

end Output

/-! ## Programs -/

/-- What has been read of a program. -/
structure Draft where
  inputs : Option (List Input)
  steps : Option (List Step)
  outputs : Option (List Output)

/-- The record of a program. -/
def shape : Shape Draft Program where
  name := "struct Program"
  fields := [
    .filling "inputs" .defaulted Draft.inputs (fun is d => { d with inputs := some is })
      (Reader.list Input.reader),
    .filling "steps" .defaulted Draft.steps (fun ss d => { d with steps := some ss })
      (Reader.list Step.reader),
    .filling "outputs" .defaulted Draft.outputs (fun os d => { d with outputs := some os })
      (Reader.list Output.reader)]
  strict := false
  blank := ⟨none, none, none⟩
  build d := .ok ⟨d.inputs.getD [], d.steps.getD [], d.outputs.getD []⟩

/-- The JSON form of a program. -/
def toJson (p : Program) : Json :=
  .object [("inputs", .array (p.inputs.map Input.toJson)),
    ("steps", .array (p.steps.map Step.toJson)),
    ("outputs", .array (p.outputs.map Output.toJson))]

/-- Reads a program. -/
def reader : Reader Program :=
  shape.reader

/-- The program that a JSON text holds. -/
def ofJsonText (text : String) : Except Json.Problem Program :=
  Json.readText reader text

end Program

end Formulary
