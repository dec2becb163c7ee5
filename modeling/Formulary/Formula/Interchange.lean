import Formulary.Formula
import Formulary.Json.Reader
/-!
# Formulas and their analysis as JSON

A source is stored with the version of its language, of which there is one. A tree is stored as the JSON
value that it is. What is said of a source, and the kinds of fault, have a JSON form as well.
-/

namespace Formulary

open Json (Reader Field Shape)

/-! ## Sources with a version -/

/-- The version of the language of sources. -/
def languageVersion : Nat := 1

namespace StoredSource

/-- What has been read of a stored source. -/
structure Draft where
  version : Option Nat
  text : Option String

/-- Stored sources are records of a version and a text. -/
def shape : Shape Draft String where
  name := "struct StoredExpression"
  fields := [
    .filling "version" .defaulted Draft.version (fun v d => { d with version := some v })
      fun depth d => do
        let v ← Reader.unsigned "u64" depth d
        if v = languageVersion then return v
        else Json.mismatched (.unsupportedVersion v languageVersion),
    .filling "source" .defaulted Draft.text (fun s d => { d with text := some s }) Reader.string]
  strict := false
  blank := ⟨none, none⟩
  build d := .ok (d.text.getD "")

/-- The JSON form of a source with its version. -/
def toJson (source : String) : Json :=
  .object [("version", .ofNat languageVersion), ("source", .string source)]

/-- Reads a source with its version. -/
def reader : Reader String :=
  shape.reader

end StoredSource

/-! ## Trees -/

/-- Reads a tree, which an object is not. -/
def Tree.reader : Reader Json := fun depth d => do
  let v ← Reader.json depth d
  if v.isObject then Json.mismatched (.notTree v) else return v

/-! ## Kinds of fault -/

/-- The words for the kinds of fault. -/
def FaultKind.words : List (String × FaultKind) :=
  [("Parse", .parse), ("UnknownSymbol", .unknownSymbol), ("NonNumericLiteral", .nonNumericLiteral),
    ("EmptySource", .emptySource), ("NonFiniteResult", .nonFiniteResult),
    ("InvalidCall", .invalidCall)]

namespace FaultKind

/-- The word for a kind of fault. -/
def word : FaultKind → String
  | parse => "Parse"
  | unknownSymbol => "UnknownSymbol"
  | nonNumericLiteral => "NonNumericLiteral"
  | emptySource => "EmptySource"
  | nonFiniteResult => "NonFiniteResult"
  | invalidCall => "InvalidCall"

theorem lookup_word (k : FaultKind) : words.lookup k.word = some k := by
  cases k <;> decide

/-- The JSON form of a kind of fault. -/
def toJson (k : FaultKind) : Json :=
  .string k.word

/-- Reads a kind of fault. -/
def reader : Reader FaultKind :=
  Reader.enumeration words

end FaultKind

/-! ## Analyses -/

namespace Analysis

/-- What has been read of an analysis. -/
structure Draft where
  variableNames : Option (List String)
  error : Option (Option String)

/-- The record of an analysis. -/
def shape : Shape Draft Analysis where
  name := "struct ExpressionAnalysis"
  fields := [
    .filling "variables" .required Draft.variableNames
      (fun ns d => { d with variableNames := some ns }) (Reader.list Reader.string),
    .filling "error" .optional Draft.error (fun e d => { d with error := some e })
      (Reader.option Reader.string)]
  strict := false
  blank := ⟨none, none⟩
  build d := do return ⟨← Shape.demanded "variables" d.variableNames, d.error.join⟩

/-- The JSON form of an analysis. -/
def toJson (a : Analysis) : Json :=
  .object [("variables", .array (a.variableNames.map Json.string)),
    ("error", .ofOption Json.string a.error)]

/-- Reads an analysis. -/
def reader : Reader Analysis :=
  shape.reader

end Analysis

end Formulary
