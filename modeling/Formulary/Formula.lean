import Formulary.Expr.Parser
import Formulary.Expr.Value
import Formulary.Settings
import Formulary.Template
import Formulary.Text.Blank
import Formulary.Token.Lexer
import Formulary.Tree
/-!
# Formulas

A formula is an expression that has been read and resolved, ready for any scope. It is made of a source
with references (`Formula.ofSource`) or of a tree (`Formula.ofTree`); either way its depth is limited,
and its variables are known. Faults of a source, when it is read and when it is evaluated, have their
spans in the source.
-/

namespace Formulary

/-- The fault of a place where no token begins. -/
def Rejection.fault (r : Rejection) : Fault :=
  .badCharacter (String.ofList r.slice) r.span

namespace Expr

/-- An expression whose depth the settings allow and that is resolved, or what is wrong with it. -/
def checked (settings : Settings) (e : Expr) : Except Fault Expr :=
  if e.exceeds settings.maxDepth then .error (.tooDeep e.span)
  else match e.resolutionFault? with
    | some fault => .error fault
    | none => .ok e

/-- The expression that a text without references writes. -/
def ofText (text : List Char) : Except Fault Expr := do
  parse (← (tokenize text).mapError Rejection.fault)

end Expr

/-- An expression ready for evaluation, the template of its source, and the names of its variables. -/
structure Formula where
  expr : Expr
  template : Template
  variableNames : List String

namespace Formula

/-- The formula that a source writes. -/
def ofSource (settings : Settings) (source : String) : Except Fault Formula :=
  if isBlankText source then .error .blank
  else
    let template := Template.ofSource source
    match Expr.ofText template.text >>= Expr.checked settings with
    | .error fault => .error (fault.mapSpan template.toSource)
    | .ok e => .ok ⟨e, template, variablesOf source⟩

/-- The formula of a tree. -/
def ofTree (settings : Settings) (tree : Json) : Except Fault Formula := do
  let e ← (Tree.toExpr tree).mapError Fault.badTree
  return ⟨← e.checked settings, .ofSource "", Tree.variableNames tree⟩

/-- The number that a formula comes to in a scope. -/
def evaluate (f : Formula) (scope : Scope) : Except Fault Float :=
  (f.expr.evaluate scope).mapError (Fault.mapSpan f.template.toSource)

end Formula

/-! ## Sources and trees -/

/-- A symbol that is not known may have been meant as a variable of the scope: one of the same name, or
else, unless a word of the vocabulary is near, one with a name that is near. -/
def Fault.suggestFrom (scope : Scope) : Fault → Fault
  | unknownSymbol name s suggestion =>
    if scope.contains name then unknownSymbol name s (some name)
    else unknownSymbol name s (suggestion.or (closest? name scope.names suggestionDistance))
  | fault => fault

/-- The number that a source comes to in a scope. -/
def evaluateSource (settings : Settings) (source : String) (scope : Scope) : Except Fault Float :=
  match Formula.ofSource settings source with
  | .error fault => .error (fault.suggestFrom scope)
  | .ok f => f.evaluate scope

/-- The number that a tree comes to in a scope. -/
def evaluateTree (settings : Settings) (tree : Json) (scope : Scope) : Except Fault Float := do
  (← Formula.ofTree settings tree).evaluate scope

/-- What can be said of a source without a scope. -/
structure Analysis where
  variableNames : List String
  error : Option String

/-- The variables of a source, and the message of what is wrong with it. A blank source is right. -/
def analyze (settings : Settings) (source : String) : Analysis :=
  if isBlankText source then ⟨[], none⟩
  else
    ⟨variablesOf source, match Formula.ofSource settings source with
      | .error fault => some fault.message
      | .ok _ => none⟩

end Formulary
