import Formulary.Arithmetic
import Formulary.Number.NearZero
/-!
# The vocabulary

The words that an expression may use by themselves: constants, functions, and a reserved word that has
no meaning of its own. The table is sorted by word.
-/

namespace Formulary

/-- The numbers of arguments that a function takes. -/
inductive Arity where
  | exactly (count : Nat)
  | between (least greatest : Nat)
  | atLeast (count : Nat)
deriving DecidableEq

namespace Arity

/-- Whether a number of arguments is right. -/
def accepts : Arity → Nat → Bool
  | exactly k, n => n = k
  | between lo hi, n => lo ≤ n && n ≤ hi
  | atLeast k, n => k ≤ n

/-- How an arity is shown. -/
def shown : Arity → String
  | exactly k => toString k
  | between lo hi => toString lo ++ " to " ++ toString hi
  | atLeast k => "at least " ++ toString k

end Arity

/-- A function of the vocabulary: how many arguments it takes, and what it makes of them. -/
structure Builtin where
  arity : Arity
  apply : List Float → Float

namespace Builtin

/-- A function of one number. -/
def ofUnary (f : Float → Float) : Builtin where
  arity := .exactly 1
  apply
    | [x] => f x
    | _ => notANumber

/-- A function of two numbers. -/
def ofBinary (f : Float → Float → Float) : Builtin where
  arity := .exactly 2
  apply
    | [x, y] => f x y
    | _ => notANumber

/-- A function of one number or two. -/
def ofOneOrTwo (f : Float → Float) (g : Float → Float → Float) : Builtin where
  arity := .between 1 2
  apply
    | [x] => f x
    | [x, y] => g x y
    | _ => notANumber

/-- A function of one number or more. -/
def ofSome (f : List Float → Float) : Builtin where
  arity := .atLeast 1
  apply := f

end Builtin

/-- What a word means. -/
inductive Meaning where
  | constant (value : Float)
  | function (builtin : Builtin)
  | reserved

open Arithmetic in
/-- The words and their meanings, sorted. -/
def vocabulary : List (String × Meaning) := [
  ("E", .constant 2.71828182845904523536),
  ("Infinity", .constant positiveInfinity),
  ("LN10", .constant 2.30258509299404568402),
  ("LN2", .constant 0.693147180559945309417),
  ("LOG10E", .constant 0.434294481903251827651),
  ("LOG2E", .constant 1.44269504088896340736),
  ("NaN", .constant notANumber),
  ("PI", .constant 3.14159265358979323846),
  ("SQRT1_2", .constant 0.707106781186547524401),
  ("SQRT2", .constant 1.41421356237309504880),
  ("abs", .function (.ofUnary Float.abs)),
  ("acos", .function (.ofUnary Float.acos)),
  ("acosh", .function (.ofUnary Float.acosh)),
  ("asin", .function (.ofUnary Float.asin)),
  ("asinh", .function (.ofUnary Float.asinh)),
  ("atan", .function (.ofUnary Float.atan)),
  ("atan2", .function (.ofBinary Float.atan2)),
  ("atanh", .function (.ofUnary Float.atanh)),
  ("cbrt", .function (.ofUnary Float.cbrt)),
  ("ceil", .function (.ofUnary ceiling)),
  ("cos", .function (.ofUnary Float.cos)),
  ("cosh", .function (.ofUnary Float.cosh)),
  ("cube", .function (.ofUnary fun x => x * x * x)),
  ("e", .constant 2.71828182845904523536),
  ("end", .reserved),
  ("exp", .function (.ofUnary Float.exp)),
  ("expm1", .function (.ofUnary expMinusOne)),
  ("factorial", .function (.ofUnary factorial)),
  ("false", .constant 0.0),
  ("fix", .function (.ofUnary truncate)),
  ("floor", .function (.ofUnary floor)),
  ("hypot", .function (.ofSome hypot)),
  ("log", .function (.ofOneOrTwo Float.log fun x base => Float.log x / Float.log base)),
  ("log10", .function (.ofUnary Float.log10)),
  ("log1p", .function (.ofUnary logOnePlus)),
  ("log2", .function (.ofUnary Float.log2)),
  ("max", .function (.ofSome greatest)),
  ("mean", .function (.ofSome mean)),
  ("min", .function (.ofSome least)),
  ("mod", .function (.ofBinary modulo)),
  ("nthRoot", .function (.ofOneOrTwo (nthRoot · 2.0) nthRoot)),
  ("phi", .constant 1.618033988749895),
  ("pi", .constant 3.14159265358979323846),
  ("pow", .function (.ofBinary Float.pow)),
  ("round", .function (.ofOneOrTwo roundHalfAway roundTo)),
  ("sign", .function (.ofUnary sign)),
  ("sin", .function (.ofUnary Float.sin)),
  ("sinh", .function (.ofUnary Float.sinh)),
  ("sqrt", .function (.ofUnary Float.sqrt)),
  ("square", .function (.ofUnary fun x => x * x)),
  ("sum", .function (.ofSome sum)),
  ("tan", .function (.ofUnary Float.tan)),
  ("tanh", .function (.ofUnary Float.tanh)),
  ("tau", .constant 6.28318530717958647692),
  ("true", .constant 1.0),
  ("trunc", .function (.ofUnary truncate))]

/-- What a word means, if it is one. -/
def meaning? (word : String) : Option Meaning :=
  vocabulary.lookup word

/-- The words in order. -/
def words : List String :=
  vocabulary.map Prod.fst

/-- The function that a word names. -/
def builtin? (word : String) : Option Builtin :=
  match meaning? word with
  | some (.function b) => some b
  | _ => none

/-- The constant that a word names. -/
def constant? (word : String) : Option Float :=
  match meaning? word with
  | some (.constant x) => some x
  | _ => none

/-- Whether a word is reserved. -/
def isReserved (word : String) : Bool :=
  match meaning? word with
  | some .reserved => true
  | _ => false

/-- Whether a word may stand by itself. -/
def isWord (word : String) : Bool :=
  (meaning? word).isSome

end Formulary
