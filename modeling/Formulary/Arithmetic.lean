import Formulary.Number.Binary
/-!
# Arithmetic of the vocabulary

The functions that expressions can call, beyond those of the host's doubles.
-/

namespace Formulary.Arithmetic

/-- Whether a number counts as true: it is neither zero nor an undefined result. -/
def truthy (x : Float) : Bool :=
  x != 0.0 && !x.isNaN

/-- The number that a truth value is. -/
def ofBool (b : Bool) : Float :=
  if b then 1.0 else 0.0

/-! ## Comparison with a tolerance -/

/-- The difference within which two numbers are equal, relative to the larger of them. -/
def relativeTolerance : Float := 1e-12

/-- The difference within which two numbers are equal whatever their size. -/
def absoluteTolerance : Float := 1e-15

/-- The larger of two numbers; one that is not a number does not count. -/
def larger (x y : Float) : Float :=
  if x.isNaN then y else if x < y then y else x

/-- Equality within the tolerances; infinities are equal only to themselves. -/
def nearlyEqual (x y : Float) : Bool :=
  if x == y then true
  else if !x.isFinite || !y.isFinite then false
  else
    let difference := (x - y).abs
    difference ≤ absoluteTolerance || difference ≤ relativeTolerance * larger x.abs y.abs

/-! ## Division with remainder and whole powers -/

/-- The remainder with the sign of the divisor; a number is its own remainder by zero. -/
def modulo (x y : Float) : Float :=
  if y == 0.0 then x else x - y * floor (x / y)

/-- A power by repeated squaring, times a number. -/
def squarings (accumulated base : Float) (n : Nat) : Float :=
  let next := if n % 2 = 1 then accumulated * base else accumulated
  if n < 2 then next else squarings next (base * base) (n / 2)
termination_by n

/-- A whole power; a negative one is the reciprocal of the positive. -/
def wholePower (base : Float) (n : Int) : Float :=
  let magnitude := squarings 1.0 base n.natAbs
  if n < 0 then 1.0 / magnitude else magnitude

/-- The factorial of a natural number, infinite beyond 170; of nothing else. -/
def factorial (x : Float) : Float :=
  if x < 0.0 || !isIntegral x then notANumber
  else if 170.0 < x then positiveInfinity
  else (List.range (toRange 0 170 x).toNat).foldl (fun product k => product * Float.ofNat (k + 1)) 1.0

/-! ## Rounding -/

/-- Rounds to a number of decimal places, which may be negative. -/
def roundTo (x places : Float) : Float :=
  let factor := wholePower 10.0 (toRange (-Nat.pow 2 31) (Nat.pow 2 31 - 1) places)
  roundHalfAway (x * factor) / factor

/-- One with the sign of a number; zeros and what is not a number stay as they are. -/
def sign (x : Float) : Float :=
  if x == 0.0 || x.isNaN then x else if x < 0.0 then -1.0 else 1.0

/-! ## Roots -/

/-- The degree of a root as a 64-bit integer. -/
def rootDegree (n : Float) : Int :=
  toRange (-Nat.pow 2 63) (Nat.pow 2 63 - 1) n

/-- The root of a degree by means of a power function; an odd root of a negative number is negative. -/
def rootBy (power : Float → Float → Float) (x n : Float) : Float :=
  if x < 0.0 && isIntegral n && rootDegree n % 2 ≠ 0 then
    -power (-x) (1.0 / n)
  else power x (1.0 / n)

/-- The root of a degree. -/
def nthRoot (x n : Float) : Float :=
  rootBy Float.pow x n

/-! ## Lists of numbers -/

/-- The sum from left to right. -/
def sum (xs : List Float) : Float :=
  xs.foldl (· + ·) (-0.0)

/-- The arithmetic mean. -/
def mean (xs : List Float) : Float :=
  sum xs / Float.ofNat xs.length

/-- The square root of the sum of squares. -/
def hypot (xs : List Float) : Float :=
  Float.sqrt (sum (xs.map fun x => x * x))

/-- The least number; of equal ones the last, and what is not a number does not count. -/
def least (xs : List Float) : Float :=
  xs.foldl (fun held x => if x ≤ held then x else held) positiveInfinity

/-- The greatest number; of equal ones the last, and what is not a number does not count. -/
def greatest (xs : List Float) : Float :=
  xs.foldl (fun held x => if held ≤ x then x else held) (-positiveInfinity)

end Formulary.Arithmetic
