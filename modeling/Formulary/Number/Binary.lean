/-!
# Doubles as exact numbers

A double is not a number, an infinity, or an exact binary fraction `± coefficient · 2 ^ exponent`.
Everything that needs the exact value starts from this view: rounding to an integer, conversion to an
integer range, and the choice of decimal digits.

Rounding to an integer keeps the sign, so that a negative number that rounds to zero gives the
negative zero.
-/

namespace Formulary

/-- What a double stands for. -/
inductive Binary where
  | nan
  | infinite (negative : Bool)
  | finite (negative : Bool) (coefficient : Nat) (exponent : Int)
deriving DecidableEq

namespace Binary

/-- The exponent of the least positive double. -/
def leastExponent : Int := -1074

/-- The value of a 64-bit pattern: a sign bit, eleven bits of exponent, fifty-two of fraction. -/
def ofPattern (bits : Nat) : Binary :=
  let negative := decide (Nat.pow 2 63 ≤ bits)
  let biased : Nat := bits / Nat.pow 2 52 % Nat.pow 2 11
  let fraction : Nat := bits % Nat.pow 2 52
  if biased = 2047 then
    if fraction = 0 then infinite negative else nan
  else if biased = 0 then finite negative fraction leastExponent
  else finite negative (Nat.pow 2 52 + fraction) (biased - 1075)

end Binary

/-- The value that a double stands for. -/
def binary (x : Float) : Binary :=
  Binary.ofPattern x.toBits.toNat

/-! ## Special values -/

def positiveInfinity : Float := 1.0 / 0.0

def notANumber : Float := 0.0 / 0.0

/-- A double with the sign given. -/
def withSign (negative : Bool) (x : Float) : Float :=
  if negative then -x else x

/-! ## Rounding to an integer -/

/-- How to round the magnitude `whole + part / unit` of a number, with `part < unit`: to `whole` or
to its successor. -/
abbrev RoundingRule := (negative : Bool) → (part unit : Nat) → Bool

/-- Rounds a finite number that is not an integer by the rule; leaves the others as they are. -/
def roundBy (up : RoundingRule) (x : Float) : Float :=
  match binary x with
  | .finite negative m (.negSucc k) =>
    let unit := Nat.pow 2 (k + 1)
    let whole := m / unit
    let magnitude := if up negative (m % unit) unit then whole + 1 else whole
    withSign negative (Float.ofNat magnitude)
  | _ => x

/-- Toward zero. -/
def truncate (x : Float) : Float :=
  roundBy (fun _ _ _ => false) x

/-- Toward minus infinity. -/
def floor (x : Float) : Float :=
  roundBy (fun negative part _ => negative && 0 < part) x

/-- Toward plus infinity. -/
def ceiling (x : Float) : Float :=
  roundBy (fun negative part _ => !negative && 0 < part) x

/-- To the nearest integer, halves away from zero. -/
def roundHalfAway (x : Float) : Float :=
  roundBy (fun _ part unit => unit ≤ 2 * part) x

/-- Whether a double is an integer. -/
def isIntegral (x : Float) : Bool :=
  match binary x with
  | .finite _ _ (.ofNat _) => true
  | .finite _ m (.negSucc k) => m % Nat.pow 2 (k + 1) = 0
  | _ => false

/-- The integer part of a number, held within a range; a number that is not one counts as zero. -/
def toRange (least greatest : Int) (x : Float) : Int :=
  match binary x with
  | .nan => 0
  | .infinite negative => if negative then least else greatest
  | .finite negative m e =>
    let magnitude : Nat := match e with
      | .ofNat k => m * Nat.pow 2 k
      | .negSucc k => m / Nat.pow 2 (k + 1)
    let whole : Int := if negative then -magnitude else magnitude
    max least (min greatest whole)

end Formulary
