import Formulary.Number.Decimal
/-!
# The text of a number

A double is written by the shortest decimal that reads back as it, laid out in one of two styles: the
plain style of results and messages, which never uses an exponent, and the style of interchange files.
A third layout writes a chosen number of significant digits.
-/

namespace Formulary

/-- Decisions about the layout of a number. -/
structure NumberStyle where
  /-- Which of two equally near shortest decimals is taken. -/
  ties : Ties
  /-- The exponents of the leading digit, from the first up to the second, that are written without
  an exponent; all of them if there is no bound. -/
  positional : Option (Int × Int)
  /-- Whether an integer is written with a point and a zero. -/
  pointZero : Bool

/-- Results and messages. -/
def NumberStyle.plain : NumberStyle :=
  ⟨.upward, none, false⟩

/-- Interchange files. -/
def NumberStyle.interchange : NumberStyle :=
  ⟨.toEven, some (-5, 16), true⟩

namespace Decimal

/-- The exponent of the leading digit. -/
def leading (d : Decimal) : Int :=
  digitCount d.coefficient + d.exponent - 1

/-- The decimal written without an exponent. -/
def positionalText (d : Decimal) (pointZero : Bool) : List Char :=
  let digits := digitsOf d.coefficient
  match d.exponent with
  | .ofNat k => digits ++ List.replicate k '0' ++ if pointZero then ['.', '0'] else []
  | .negSucc k =>
    let places := k + 1
    if places < digits.length then
      digits.take (digits.length - places) ++ '.' :: digits.drop (digits.length - places)
    else '0' :: '.' :: List.replicate (places - digits.length) '0' ++ digits

/-- The decimal with one digit before the point, and an exponent with the sign mark given for
exponents that are not negative. -/
def scientificText (d : Decimal) (plus : List Char) : List Char :=
  let mantissa := match digitsOf d.coefficient with
    | first :: second :: rest => first :: '.' :: second :: rest
    | digits => digits
  let exponent := match d.leading with
    | .ofNat k => plus ++ digitsOf k
    | .negSucc k => '-' :: digitsOf (k + 1)
  mantissa ++ 'e' :: exponent

end Decimal

/-- The characters of a magnitude in a style. -/
def NumberStyle.digits (style : NumberStyle) (m : Nat) (e : Int) : List Char :=
  let d := Decimal.shortest style.ties m e
  if d.coefficient = 0 || style.positional.all (fun p => p.1 ≤ d.leading && d.leading < p.2) then
    d.positionalText style.pointZero
  else d.scientificText ['+']

/-- The text of a number in a style. -/
def NumberStyle.text (style : NumberStyle) (x : Float) : String :=
  match binary x with
  | .nan => "NaN"
  | .infinite negative => if negative then "-inf" else "inf"
  | .finite negative m e =>
    String.ofList ((if negative then ['-'] else []) ++ style.digits m e)

/-- The text of a number in results and messages. -/
def numberText (x : Float) : String :=
  NumberStyle.plain.text x

/-- The text of a number with `count` significant digits and an exponent; special values as in
messages. -/
def significantText (count : Nat) (x : Float) : String :=
  match binary x with
  | .finite negative m e =>
    let digits := if m = 0 then '0' :: '.' :: List.replicate (count - 1) '0' ++ ['e', '0']
      else (Decimal.rounded count m e).scientificText []
    String.ofList ((if negative then ['-'] else []) ++ digits)
  | _ => numberText x

end Formulary
