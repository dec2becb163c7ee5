import Formulary.Number.Binary
/-!
# Exponential and logarithm around zero

`exp x - 1` and `log (1 + x)` to the last place, also where the one would drown the rest. Either is
taken to a short interval about zero by a multiple of `log 2`; there a polynomial answers. `log 2` is
kept as the sum of two doubles, of which the first has so few bits that its products with the multiples
that occur are exact, and what rounding takes from the argument is carried along.
-/

namespace Formulary

/-- The leading bits of `log 2`. -/
def log2High : Float := 6.93147180369123816490e-01

/-- What the leading bits leave of `log 2`. -/
def log2Low : Float := 1.90821492927058770002e-10

/-! ## The exponential less one -/

/-- An argument as a multiple of `log 2`, a rest, and what rounding took from the rest. -/
structure Reduced where
  multiple : Int
  rest : Float
  lost : Float

/-- An argument without a multiple of `log 2`, so that at most about half of one is left. -/
def Reduced.of (x : Float) : Reduced :=
  if x.abs < 0.3465735912322998 then ⟨0, x, 0.0⟩
  else
    let near := x.abs < 1.0397205352783203
    let half := if x < 0.0 then -0.5 else 0.5
    let k : Int := if near then (if x < 0.0 then -1 else 1)
      else toRange (-2048) 2048 (1.44269504088896338700 * x + half)
    let high := x - Float.ofInt k * log2High
    let low := Float.ofInt k * log2Low
    let rest := high - low
    ⟨k, rest, (high - rest) - low⟩

/-- The polynomial for the exponential, of half the square of the rest. -/
def expPolynomial (h : Float) : Float :=
  let h2 := h * h
  let h4 := h2 * h2
  (1.0 + h * -3.33333333333331316428e-02)
    + h2 * (1.58730158725481460165e-03 + h * -7.93650757867487942473e-05)
    + h4 * (4.00821782732936239552e-06 + h * -2.01099218183624371326e-07)

/-- `exp x - 1` of an argument that is neither tiny nor large. -/
def Reduced.expMinusOne (a : Reduced) : Float :=
  let x := a.rest
  let k := a.multiple
  let half := 0.5 * x
  let square := x * half
  let r := expPolynomial square
  let t := 3.0 - r * half
  let e := square * ((r - t) / (6.0 - x * t))
  if k = 0 then x - (x * e - square)
  else
    let e := (x * (e - a.lost) - a.lost) - square
    if k = -1 then 0.5 * (x - e) - 0.5
    else if k = 1 then
      if x < -0.25 then -2.0 * (e - (x + 0.5)) else 1.0 + 2.0 * (x - e)
    else if k ≤ -2 || 56 < k then (1.0 - (e - x)).scaleB k - 1.0
    else
      let part := Float.scaleB 1.0 (-k)
      if k < 20 then ((1.0 - part) - (e - x)).scaleB k
      else ((x - (e + part)) + 1.0).scaleB k

/-- `exp x - 1`. -/
def expMinusOne (x : Float) : Float :=
  if x.isNaN || x.abs < 5.551115123125783e-17 then x
  else if 709.782712893383973096 < x then positiveInfinity
  else if x ≤ -38.81622314453125 then -1.0
  else (Reduced.of x).expMinusOne

/-! ## The logarithm of one more -/

/-- A number as the product of one more than a fraction with a power of two, and what rounding took
from the fraction. -/
structure Factored where
  exponent : Int
  fraction : Float
  lost : Float

/-- `1 + x` as a product, for `x` above `-1`: the fraction is at most about `0.41`. -/
def Factored.ofOnePlus (x : Float) : Factored :=
  if -0.2928934097290039 < x && x < 0.4142136573791504 then ⟨0, x, 0.0⟩
  else
    let u := 1.0 + x
    let (half, exponent) := u.frExp
    let lost := if 9007199254740992.0 ≤ x then 0.0
      else if 2.0 ≤ u then (1.0 - (u - x)) / u
      else (x - (u - 1.0)) / u
    if half < 0.7071065902709961 then ⟨exponent - 1, 2.0 * half - 1.0, lost⟩
    else ⟨exponent, half - 1.0, lost⟩

/-- The polynomial for the logarithm, of a square. -/
def logPolynomial (z : Float) : Float :=
  let z2 := z * z
  let z4 := z2 * z2
  let z6 := z4 * z2
  z * 6.666666666666735130e-01
    + z2 * (3.999999999940941908e-01 + z * 2.857142874366239149e-01)
    + z4 * (2.222219843214978396e-01 + z * 1.818357216161805012e-01)
    + z6 * (1.531383769920937332e-01 + z * 1.479819860511658591e-01)

/-- The logarithm of a product. -/
def Factored.log (a : Factored) : Float :=
  let f := a.fraction
  let k := Float.ofInt a.exponent
  let half := 0.5 * f * f
  let s := f / (2.0 + f)
  let tail := s * (half + logPolynomial (s * s))
  if a.exponent = 0 then f - (half - tail)
  else k * log2High - ((half - (tail + (k * log2Low + a.lost))) - f)

/-- `log (1 + x)`; not a number below `-1`. -/
def logOnePlus (x : Float) : Float :=
  if x.isNaN then x
  else if x < -1.0 then notANumber
  else if x == -1.0 then -positiveInfinity
  else if x.isInf then x
  else if x.abs < 1.862645149230957e-09 then x - x * x * 0.5
  else (Factored.ofOnePlus x).log

end Formulary
