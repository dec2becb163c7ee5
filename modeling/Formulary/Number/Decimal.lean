import Formulary.Number.Binary
/-!
# Decimals

A decimal is `coefficient · 10 ^ exponent`. This file chooses the decimal that stands for a double,
either the shortest one that reads back or the nearest with a given number of digits, and finds the
double nearest to a decimal.

Every choice is made in exact integers. A positive double is `num / den`; the numbers that round to
it form an interval of half a unit in the last place to either side (a quarter below a power of two),
whose ends belong to it if the coefficient is even. Of the grids `10 ^ j` the coarsest that meets the
interval gives the shortest decimal; it meets it in one of the two neighbours of the double.
-/

namespace Formulary

/-- The number `coefficient · 10 ^ exponent`. -/
structure Decimal where
  coefficient : Nat
  exponent : Int
deriving DecidableEq

namespace Decimal

/-- The digits of a natural number in base ten. -/
def digitsOf (n : Nat) : List Char :=
  Nat.toDigits 10 n

/-- How many digits a natural number has. -/
def digitCount (n : Nat) : Nat :=
  (digitsOf n).length

/-- The same number with no zero at the end of its coefficient; at most `places` zeros are cut. -/
def stripZeros (places : Nat) (d : Decimal) : Decimal :=
  match places with
  | 0 => d
  | places + 1 =>
    if d.coefficient % 10 = 0 && d.coefficient ≠ 0 then
      stripZeros places ⟨d.coefficient / 10, d.exponent + 1⟩
    else d

end Decimal

/-! ## Choosing digits -/

/-- Which of two equally near decimals is taken. -/
inductive Ties where
  | upward
  | toEven
deriving DecidableEq

/-- The positive fraction `num / den`. -/
structure Ratio where
  num : Nat
  den : Nat

namespace Ratio

/-- The value `m · 2 ^ e`. -/
def ofBinary (m : Nat) : Int → Ratio
  | .ofNat k => ⟨m * Nat.pow 2 k, 1⟩
  | .negSucc k => ⟨m, Nat.pow 2 (k + 1)⟩

/-- The value divided by `10 ^ j`. -/
def shift (r : Ratio) : Int → Ratio
  | .ofNat k => ⟨r.num, r.den * Nat.pow 10 k⟩
  | .negSucc k => ⟨r.num * Nat.pow 10 (k + 1), r.den⟩

/-- The least `k` with `r < 10 ^ k`, for values no smaller than `10 ^ -324`. -/
def magnitude (r : Ratio) : Int :=
  Decimal.digitCount (r.num * Nat.pow 10 324 / r.den) - 324

/-- Whether the next grid point is the one to take rather than the one below. -/
def roundsUp (r : Ratio) (ties : Ties) : Bool :=
  let below := r.num / r.den
  let part := 2 * (r.num % r.den)
  match compare part r.den with
  | .lt => false
  | .gt => true
  | .eq => ties = .upward || below % 2 = 1

end Ratio

namespace Decimal

/-- Whether `c · 10 ^ j` rounds to `m · 2 ^ e`. All sides are scaled by four, so that the half and
the quarter unit are integers. -/
def readsBack (m : Nat) (e : Int) (c : Nat) (j : Int) : Bool :=
  let narrow := m = Nat.pow 2 52 && Binary.leastExponent < e
  let least := (Ratio.ofBinary (4 * m - if narrow then 1 else 2) e).shift j
  let greatest := (Ratio.ofBinary (4 * m + 2) e).shift j
  if m % 2 = 0 then
    decide (least.num ≤ 4 * c * least.den ∧ 4 * c * greatest.den ≤ greatest.num)
  else
    decide (least.num < 4 * c * least.den ∧ 4 * c * greatest.den < greatest.num)

/-- The decimal nearest to `m · 2 ^ e` on the grid `10 ^ j` of those that read back. -/
def onGrid? (ties : Ties) (m : Nat) (e j : Int) : Option Decimal :=
  let scaled := (Ratio.ofBinary m e).shift j
  let below := scaled.num / scaled.den
  let lower := readsBack m e below j
  let upper := readsBack m e (below + 1) j
  if lower && (!upper || !scaled.roundsUp ties) then some ⟨below, j⟩
  else if upper then some ⟨below + 1, j⟩
  else none

/-- The shortest decimal that reads back as `m · 2 ^ e`. Seventeen digits are enough. -/
def shortest (ties : Ties) (m : Nat) (e : Int) : Decimal :=
  if m = 0 then ⟨0, 0⟩
  else
    let k := (Ratio.ofBinary m e).magnitude
    let found := (List.range 17).findSome? fun (n : Nat) => onGrid? ties m e (k - (n + 1))
    (found.getD ⟨0, 0⟩).stripZeros 18

/-- The decimal of `count` digits nearest to `m · 2 ^ e`, ties to the even neighbour. -/
def rounded (count m : Nat) (e : Int) : Decimal :=
  if m = 0 then ⟨0, 0⟩
  else
    let r := Ratio.ofBinary m e
    let j := r.magnitude - count
    let scaled := r.shift j
    let c := scaled.num / scaled.den + if scaled.roundsUp .toEven then 1 else 0
    if digitCount c = count then ⟨c, j⟩ else ⟨c / 10, j + 1⟩

/-! ## The nearest double -/

/-- The double nearest to a decimal. Beyond `10 ^ 310` all are infinite, and below `10 ^ -330` all are
zero, so the power of ten that has to be formed stays small. -/
def toFloat (d : Decimal) : Float :=
  let reach := digitCount d.coefficient + d.exponent
  if d.coefficient = 0 || reach < -330 then 0.0
  else if 310 < reach then positiveInfinity
  else Float.ofScientific d.coefficient (d.exponent < 0) d.exponent.natAbs

end Decimal

end Formulary
