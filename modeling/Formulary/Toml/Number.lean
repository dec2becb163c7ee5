import Formulary.Number.Numeral
import Formulary.Text.Hexadecimal
import Formulary.Toml.Scan
/-!
# Numbers of TOML

An integer has digits in one of four bases, and a real number a fraction, an exponent or a name. An
underscore may stand between two digits, and once it is there a digit has to follow.
-/

namespace Formulary.Toml

/-- The digits of a base of at most sixteen. -/
def isDigitIn (base : Nat) (c : Char) : Bool :=
  (hexValue? c).any (· < base)

/-- The least integer. -/
def leastInteger : Int := -Nat.pow 2 63

/-- The greatest integer. -/
def greatestInteger : Int := Nat.pow 2 63 - 1

namespace Scan

/-- Takes more digits of a class, with underscores between them. -/
def moreDigits (p : Char → Bool) : Scan (List Char) :=
  many (orElse (one p) (do char '_'; required (one p)))

/-- Takes digits of a class, with underscores between them. -/
def digits (p : Char → Bool) : Scan (List Char) := do
  return (← one p) :: (← moreDigits p)

/-- Takes a sign, if there is one; whether it is negative. -/
def sign : Scan (Option Char) :=
  optional (one fun c => c = '+' || c = '-')

/-- Takes the digits of a decimal integer: a zero alone, or digits that begin with another. -/
def wholeDigits : Scan (List Char) :=
  orElse (do return (← one fun c => c.isDigit && c ≠ '0') :: (← moreDigits Char.isDigit))
    (do return [← one Char.isDigit])

/-- An integer that is not too large; otherwise the failure is at its beginning. -/
def inRange (start : Nat) (n : Int) : Scan Int :=
  if leastInteger ≤ n && n ≤ greatestInteger then pure n else failAt start true

/-- Takes an integer in a base that is named by a letter. -/
def baseInteger (base : Nat) (letter : Char) : Scan Int := do
  let start ← position
  word ['0', letter]
  let ds ← required (digits (isDigitIn base))
  inRange start ((digitsIn? base ds).getD 0)

/-- Takes a decimal integer. -/
def decimalInteger : Scan Int := do
  let start ← position
  let s ← sign
  let n := digitsValue (← wholeDigits)
  inRange start (if s = some '-' then -n else n)

/-- Takes an integer. -/
def integer : Scan Int :=
  orElse (baseInteger 16 'x') <| orElse (baseInteger 8 'o') <| orElse (baseInteger 2 'b') decimalInteger

/-- Takes an exponent. -/
def exponent : Scan Numeral.Exponent := do
  let letter ← one fun c => c = 'e' || c = 'E'
  let s ← sign
  return ⟨letter, s, ← required (digits Char.isDigit)⟩

/-- Takes a point and the digits behind it. -/
def fraction : Scan (List Char) := do
  char '.'
  required (digits Char.isDigit)

/-- Takes a real number in digits. One above all doubles fails at its beginning. -/
def decimalReal : Scan Unit := do
  let start ← position
  let s ← sign
  let whole ← wholeDigits
  let (places, e) ← orElse (do return (none, some (← exponent)))
    (do return (some (← fraction), ← optional exponent))
  let x := Numeral.value ⟨whole, places, e⟩
  if s ≠ some '-' && x.toFloat.isInf then failAt start true

/-- Takes a real number. -/
def real : Scan Unit :=
  orElse decimalReal do
    discard sign
    orElse (word ['i', 'n', 'f']) (word ['n', 'a', 'n'])

end Scan

end Formulary.Toml
