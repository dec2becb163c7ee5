import Formulary.Expr.Resolution
import Formulary.Scope
/-!
# The value of an expression

The value of an expression in a scope, from left to right. `and`, `or` and the conditional evaluate only
what they need. On the way numbers may be infinite or undefined; a value at the end may not
(`Expr.evaluate`).
-/

namespace Formulary

open Arithmetic

/-- The number that an operator makes of two numbers. -/
def BinaryOp.apply : BinaryOp → Float → Float → Float
  | add, x, y => x + y
  | sub, x, y => x - y
  | mul, x, y => x * y
  | div, x, y => x / y
  | mod, x, y => modulo x y
  | pow, x, y => Float.pow x y
  | eq, x, y => ofBool (nearlyEqual x y)
  | ne, x, y => ofBool (!nearlyEqual x y)
  | lt, x, y => ofBool (x < y && !nearlyEqual x y)
  | gt, x, y => ofBool (y < x && !nearlyEqual x y)
  | le, x, y => ofBool (x ≤ y || nearlyEqual x y)
  | ge, x, y => ofBool (y ≤ x || nearlyEqual x y)
  | and, x, y => ofBool (truthy x && truthy y)
  | or, x, y => ofBool (truthy x || truthy y)

/-- The number that an operator makes of one number. -/
def UnaryOp.apply : UnaryOp → Float → Float
  | neg, x => -x
  | plus, x => x
  | not, x => ofBool (!truthy x)
  | factorial, x => Arithmetic.factorial x

/-- The value that a left operand decides alone. -/
def BinaryOp.decided? : BinaryOp → Float → Option Float
  | and, x => if truthy x then none else some 0.0
  | or, x => if truthy x then some 1.0 else none
  | _, _ => none

/-- The fault of a variable that a scope does not bind. -/
def Scope.unboundFault (scope : Scope) (name : String) (s : Span) : Fault :=
  .unbound name (some s) (closest? name scope.names suggestionDistance)

/-- The number that a name stands for. -/
def Scope.read (scope : Scope) (name : String) (s : Span) : Except Fault Float :=
  match variableOf? name with
  | some v => match scope.get? v with
    | some x => .ok x
    | none => .error (scope.unboundFault v s)
  | none => match meaning? name with
    | some (.constant x) => .ok x
    | some (.function _) => .error (.notFinite notANumber)
    | some .reserved | none => .error (.unknownSymbol name s none)

namespace Expr

mutual

/-- The number that an expression comes to in a scope. -/
def value (scope : Scope) : Expr → Except Fault Float
  | number _ x => .ok x
  | text s _ => .error (.quotedText s)
  | symbol s name => scope.read name s
  | binary _ op l r => do
    let x ← l.value scope
    match op.decided? x with
    | some y => return y
    | none => return op.apply x (← r.value scope)
  | unary _ op e => do return op.apply (← e.value scope)
  | conditional _ c y n => do
    if truthy (← c.value scope) then y.value scope else n.value scope
  | call s f nameSpan args => do
    let b ← callee s f nameSpan args.length
    return b.apply (← values scope args)

/-- The numbers that expressions come to, in order. -/
def values (scope : Scope) : List Expr → Except Fault (List Float)
  | [] => .ok []
  | e :: es => do return (← e.value scope) :: (← values scope es)

end

/-- The finite number that an expression comes to in a scope. -/
def evaluate (e : Expr) (scope : Scope) : Except Fault Float :=
  match e.value scope with
  | .error fault => .error fault
  | .ok x => if x.isFinite then .ok x else .error (.notFinite x)

end Expr

end Formulary
