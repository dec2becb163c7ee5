import Formulary.Token
import Formulary.Vocabulary
import Formulary.Json.Mismatch
/-!
# What can be wrong with an expression

A fault is a cause with what its message needs: the spans, the words and the numbers involved. The
wording is in `Fault.message` alone.
-/

namespace Formulary

/-- Why a JSON value is no expression tree. -/
inductive TreeFault where
  /-- It is neither a number nor a string nor an array. -/
  | notTree (found : Json)
  /-- A string is no name. -/
  | badName (name : String)
  /-- An array does not begin with a string. -/
  | noHead
  /-- A head has the wrong number of operands. -/
  | operandCount (head : String) (wanted : Arity) (count : Nat)
  /-- A head is not known. -/
  | unknownHead (head : String)

/-- The wording of the cause. -/
def TreeFault.message : TreeFault → String
  | notTree found => Json.notTreeMessage found
  | badName name => "\"" ++ name ++ "\" is not a valid name"
  | noHead => "operation must start with a head name"
  | operandCount head wanted count =>
    head ++ " expects " ++ wanted.shown ++ " operand(s), got " ++ toString count
  | unknownHead head => "unknown operation \"" ++ head ++ "\""

/-- The kinds of fault that callers tell apart. -/
inductive FaultKind where
  | parse | unknownSymbol | nonNumericLiteral | emptySource | nonFiniteResult | invalidCall
deriving DecidableEq

/-- Why an expression has no value. -/
inductive Fault where
  /-- No token begins here. -/
  | badCharacter (slice : String) (span : Span)
  /-- A token that cannot stand here, and the kinds that can. -/
  | unexpected (token : Token) (expected : List Terminal) (span : Span)
  /-- The end where more is wanted, and the kinds of token that can follow. -/
  | unexpectedEnd (expected : List Terminal) (span : Span)
  | tooDeep (span : Span)
  | unknownSymbol (name : String) (span : Span) (suggestion : Option String)
  /-- A reference to a variable that the scope does not bind. -/
  | unbound (name : String) (span : Option Span) (suggestion : Option String)
  | quotedText (span : Span)
  | blank
  | notFinite (value : Float)
  | wrongCount (function : String) (arity : Arity) (count : Nat) (span : Span)
  | notFunction (name : String) (span : Span)
  | badTree (cause : TreeFault)

namespace Fault

/-- The list of the kinds of token that can stand where something else does. -/
def expectedText : List Terminal → String
  | [] => ""
  | terminals => ", expected " ++ " or ".intercalate (terminals.map Terminal.shown)

/-- A variable as a user refers to it. -/
def reference (name : String) : String :=
  "\x7b\x7b" ++ name ++ "\x7d\x7d"

/-- The wording of a fault. -/
def message : Fault → String
  | badCharacter slice _ => "Unexpected character " ++ quoted slice
  | unexpected token expected _ => "Unexpected `" ++ token.shown ++ "`" ++ expectedText expected
  | unexpectedEnd expected _ => "Unexpected end of expression" ++ expectedText expected
  | tooDeep _ => "expression nested too deeply"
  | unknownSymbol name _ _ =>
    "Unknown symbol \"" ++ name ++ "\". Reference inputs as " ++ reference name ++ "."
  | unbound name _ _ => "No value for " ++ reference name ++ " in scope"
  | quotedText _ => "Expressions must resolve to numeric values, not quoted text."
  | blank => "No expression"
  | notFinite _ => "Expression did not resolve to a finite number"
  | wrongCount function arity count _ =>
    "Function " ++ function ++ " expects " ++ arity.shown ++ " argument(s), got " ++ toString count
  | notFunction name _ => "\"" ++ name ++ "\" is not a function"
  | badTree cause => "Invalid expression tree: " ++ cause.message

/-- The kind of a fault. -/
def kind : Fault → FaultKind
  | badCharacter .. | unexpected .. | unexpectedEnd .. | tooDeep _ | badTree _ => .parse
  | unknownSymbol .. | unbound .. => .unknownSymbol
  | quotedText _ => .nonNumericLiteral
  | blank => .emptySource
  | notFinite _ => .nonFiniteResult
  | wrongCount .. | notFunction .. => .invalidCall

/-- Where a fault lies, if it lies somewhere. -/
def span? : Fault → Option Span
  | badCharacter _ s | unexpected _ _ s | unexpectedEnd _ s | tooDeep s | unknownSymbol _ s _
  | quotedText s | wrongCount _ _ _ s | notFunction _ s => some s
  | unbound _ s _ => s
  | blank | notFinite _ | badTree _ => none

/-- The word that a fault is about. -/
def symbol? : Fault → Option String
  | unknownSymbol name _ _ | unbound name _ _ | wrongCount name _ _ _ | notFunction name _ =>
    some name
  | _ => none

/-- The name that may have been meant. -/
def suggestion? : Fault → Option String
  | unknownSymbol _ _ s | unbound _ _ s => s
  | _ => none

/-- A fault with its span moved. -/
def mapSpan (f : Span → Span) : Fault → Fault
  | badCharacter slice s => badCharacter slice (f s)
  | unexpected token expected s => unexpected token expected (f s)
  | unexpectedEnd expected s => unexpectedEnd expected (f s)
  | tooDeep s => tooDeep (f s)
  | unknownSymbol name s suggestion => unknownSymbol name (f s) suggestion
  | unbound name s suggestion => unbound name (s.map f) suggestion
  | quotedText s => quotedText (f s)
  | wrongCount function arity count s => wrongCount function arity count (f s)
  | notFunction name s => notFunction name (f s)
  | e@blank | e@(notFinite _) | e@(badTree _) => e

@[simp] theorem message_mapSpan (f : Span → Span) (e : Fault) :
    (e.mapSpan f).message = e.message := by
  cases e <;> rfl

@[simp] theorem kind_mapSpan (f : Span → Span) (e : Fault) : (e.mapSpan f).kind = e.kind := by
  cases e <;> rfl

@[simp] theorem span?_mapSpan (f : Span → Span) (e : Fault) :
    (e.mapSpan f).span? = e.span?.map f := by
  cases e <;> rfl

end Fault

end Formulary
