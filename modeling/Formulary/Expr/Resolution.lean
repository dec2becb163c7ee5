import Formulary.Expr
import Formulary.Fault
import Formulary.Text.EditDistance
/-!
# What an expression may refer to

An expression is resolved if its symbols and the functions that it calls are variables or words of the
vocabulary, it holds no quoted text, and each call is of a function with a number of arguments that it
takes. `Expr.resolutionFault?` gives the first offence otherwise: unknown symbols come before quoted
texts and these before wrong calls, and among offences of one kind the first in preorder counts.
-/

namespace Formulary

/-- The greatest edit distance at which one name is taken for another. -/
def suggestionDistance : Nat := 2

/-- Whether a name may stand in an expression: it is the identifier of a variable or a word. -/
def isKnown (name : String) : Bool :=
  (variableOf? name).isSome || isWord name

namespace Expr

/-- The name that a node itself brings in, and its span. -/
def symbol? : Expr → Option (String × Span)
  | symbol s name => some (name, s)
  | call _ name s _ => some (name, s)
  | _ => none

/-- The name of a node if it is not known. -/
def unknown? (e : Expr) : Option (String × Span) :=
  e.symbol?.filter fun s => !isKnown s.1

/-- The span of a quoted text. -/
def quotedText? : Expr → Option Span
  | text s _ => some s
  | _ => none

/-- The function that a call is of, if it takes the number of arguments. -/
def callee (s : Span) (function : String) (nameSpan : Span) (count : Nat) : Except Fault Builtin :=
  match builtin? function with
  | none => .error (.notFunction ((variableOf? function).getD function) nameSpan)
  | some b =>
    if b.arity.accepts count then .ok b else .error (.wrongCount function b.arity count s)

/-- What is wrong with a call. -/
def callFault? : Expr → Option Fault
  | call s f nameSpan args =>
    match callee s f nameSpan args.length with
    | .error fault => some fault
    | .ok _ => none
  | _ => none

/-- The fault of a name that is not known. -/
def unknownFault (name : String) (s : Span) : Fault :=
  .unknownSymbol name s (closest? name words suggestionDistance)

/-- The first name in preorder that is not known. -/
def firstUnknown? (e : Expr) : Option (String × Span) :=
  e.first? unknown?

/-- What keeps an expression from being resolved. -/
def resolutionFault? (e : Expr) : Option Fault :=
  match e.firstUnknown? with
  | some (name, s) => some (unknownFault name s)
  | none => match e.first? quotedText? with
    | some s => some (.quotedText s)
    | none => e.first? callFault?

end Expr

end Formulary
