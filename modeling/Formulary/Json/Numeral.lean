import Formulary.Json
import Formulary.Json.Fault
import Formulary.Number.Numeral
/-!
# JSON numerals

A JSON numeral is read into a significand of 64 bits and a power of ten. Digits that the significand
has no room for count only by their place; what the two make is one product or quotient of doubles,
which is not always the double nearest to the numeral. A numeral without a point or exponent that fits
64 bits stays an integer.
-/

namespace Formulary.Json

/-- The largest significand. -/
def maxSignificand : Nat := Nat.pow 2 64 - 1

/-- Takes digits into a significand as long as there is room; what is left begins with the first digit
that does not fit. -/
def absorb (significand : Nat) : List Char → Nat × List Char
  | [] => (significand, [])
  | c :: cs =>
    let next := 10 * significand + (c.toNat - '0'.toNat)
    if next ≤ maxSignificand then absorb next cs else (significand, c :: cs)

/-- The double nearest to a power of ten. -/
def powerOfTen (k : Nat) : Float :=
  Float.ofScientific 1 false k

/-- A double divided by `10 ^ k`, in steps of at most `10 ^ 308`. -/
def divideByTens (x : Float) (k : Nat) : Float :=
  if k ≤ 308 then x / powerOfTen k
  else if x == 0.0 then x
  else divideByTens (x / powerOfTen 308) (k - 308)
termination_by k

/-- The magnitude `significand · 10 ^ exponent`, unless it is infinite. -/
def scaled? (significand : Nat) : Int → Option Float
  | .negSucc k => some (divideByTens (Float.ofNat significand) (k + 1))
  | .ofNat k =>
    let x := Float.ofNat significand
    if k ≤ 308 then
      let y := x * powerOfTen k
      if y.isInf then none else some y
    else if x == 0.0 then some x
    else none

/-! ## The value of a numeral -/

/-- The largest exponent that is read as a number. -/
def maxExponent : Nat := Nat.pow 2 31 - 1

/-- What is left of digits after the one with which their number exceeds a bound, if one does. -/
def afterExcess? (bound n : Nat) : List Char → Option (List Char)
  | [] => none
  | c :: cs =>
    let next := 10 * n + (c.toNat - '0'.toNat)
    if bound < next then some cs else afterExcess? bound next cs

/-- The double of a significand and a power of ten, with a sign, if it is in range. -/
def real? (negative : Bool) (significand : Nat) (shift : Int) : Option Number :=
  (scaled? significand shift).map fun x => .real (withSign negative x)

/-- The integer that digits write, with a sign; a double if it does not fit 64 bits. -/
def wholeNumber? (negative : Bool) (digits : List Char) : Option Number :=
  let (n, rest) := absorb 0 digits
  if rest = [] then
    if !negative then some (.integer n)
    else if n = 0 || Nat.pow 2 63 < n then some (.real (-Float.ofNat n))
    else some (.integer (-n))
  else real? negative n rest.length

/-- The number that a numeral writes, with a sign; the numeral stops at a position. An exponent that is
too large is a fault at its first digit too many, any other excess is one at the end. -/
def numeralValue (negative : Bool) (n : Formulary.Numeral) (stop : Nat) : Except Fault Number :=
  let inRange (x : Option Number) : Except Fault Number := x.elim (.error ⟨.outOfRange, stop⟩) .ok
  match n.fraction, n.exponent with
  | none, none => inRange (wholeNumber? negative n.whole)
  | fraction, exponent =>
    let places := fraction.getD []
    let whole := absorb 0 n.whole
    let all := absorb whole.1 places
    let shift : Int := whole.2.length - (places.length - all.2.length : Nat)
    match exponent with
    | none => inRange (real? negative all.1 shift)
    | some e =>
      match afterExcess? maxExponent 0 e.digits with
      | none => inRange (real? negative all.1 (shift + e.value))
      | some unread =>
        if all.1 = 0 || e.sign = some '-' then .ok (.real (withSign negative 0.0))
        else .error ⟨.outOfRange, stop - unread.length⟩

/-! ## Scanning -/

/-- What a scan of a numeral finds: the number, or that it is out of range, and what is left with its
position; or that there is no numeral. -/
inductive NumeralScan where
  | found (value : Except Fault Number) (stop : Nat) (rest : List Char)
  | cut (faults : Faults)

/-- The faults of a place that wants a digit and has none. -/
def noDigit (position : Nat) (rest : List Char) : Faults :=
  ⟨.ahead .badNumber .endInValue position rest, .ahead .badNumber .badNumber position rest⟩

/-- The sign at the front, if one is there, and what is left. -/
def takeSign : List Char → Option Char × List Char
  | '+' :: cs => (some '+', cs)
  | '-' :: cs => (some '-', cs)
  | cs => (none, cs)

theorem length_takeSign_le (cs : List Char) : (takeSign cs).2.length ≤ cs.length := by
  unfold takeSign
  split <;> simp

/-- Takes an exponent off the front, if one begins there, after the digits of a numeral. -/
def scanExponent (negative : Bool) (whole : List Char) (fraction : Option (List Char))
    (position : Nat) (cs : List Char) : NumeralScan :=
  match cs with
  | [] => .found (numeralValue negative ⟨whole, fraction, none⟩ position) position cs
  | letter :: more =>
    if letter = 'e' || letter = 'E' then
      let (sign, more) := takeSign more
      let digits := more.takeWhile Char.isDigit
      let start := position + 1 + sign.toList.length
      let stop := start + digits.length
      if digits = [] then .cut (noDigit start more)
      else .found (numeralValue negative ⟨whole, fraction, some ⟨letter, sign, digits⟩⟩ stop) stop
        (more.dropWhile Char.isDigit)
    else .found (numeralValue negative ⟨whole, fraction, none⟩ position) position cs

/-- Takes what follows the whole part of a numeral off the front: a point with digits, an exponent. -/
def scanFraction (negative : Bool) (whole : List Char) (position : Nat) : List Char → NumeralScan
  | '.' :: more =>
    let places := more.takeWhile Char.isDigit
    if places = [] then .cut (noDigit (position + 1) more)
    else scanExponent negative whole (some places) (position + 1 + places.length)
      (more.dropWhile Char.isDigit)
  | cs => scanExponent negative whole none position cs

/-- Takes a numeral that begins at a position off the front, after its sign. A zero in front of other
digits is a fault. -/
def scanUnsigned (negative : Bool) (start : Nat) (cs : List Char) : NumeralScan :=
  match cs.takeWhile Char.isDigit with
  | [] => .cut (noDigit start cs)
  | '0' :: _ :: _ => .cut (Fault.either ⟨.badNumber, start + 2⟩)
  | whole => scanFraction negative whole (start + whole.length) (cs.dropWhile Char.isDigit)

/-- Takes a numeral that begins at a position off the front. -/
def scanNumeral (start : Nat) : List Char → NumeralScan
  | '-' :: cs => scanUnsigned true (start + 1) cs
  | cs => scanUnsigned false start cs

/-! ## What is left -/

theorem length_dropWhile_lt {p : Char → Bool} {cs : List Char} (h : cs.takeWhile p ≠ []) :
    (cs.dropWhile p).length < cs.length := by
  have happ := congrArg List.length (List.takeWhile_append_dropWhile (p := p) (l := cs))
  have hpos := List.length_pos_iff.2 h
  rw [List.length_append] at happ
  omega

theorem length_of_scanExponent {negative : Bool} {whole cs rest : List Char}
    {fraction : Option (List Char)} {position stop : Nat} {value : Except Fault Number}
    (h : scanExponent negative whole fraction position cs = .found value stop rest) :
    rest.length ≤ cs.length := by
  unfold scanExponent at h
  split at h
  · obtain ⟨-, -, rfl⟩ := NumeralScan.found.inj h
    exact Nat.le_refl _
  · rename_i letter more
    split at h
    · dsimp only at h
      split at h
      · simp at h
      · obtain ⟨-, -, rfl⟩ := NumeralScan.found.inj h
        have hdrop := (List.dropWhile_sublist Char.isDigit (l := (takeSign more).2)).length_le
        have hsign := length_takeSign_le more
        simp only [List.length_cons]
        omega
    · obtain ⟨-, -, rfl⟩ := NumeralScan.found.inj h
      exact Nat.le_refl _

theorem length_of_scanFraction {negative : Bool} {whole cs rest : List Char}
    {position stop : Nat} {value : Except Fault Number}
    (h : scanFraction negative whole position cs = .found value stop rest) :
    rest.length ≤ cs.length := by
  unfold scanFraction at h
  split at h
  · rename_i more
    dsimp only at h
    split at h
    · simp at h
    · have hrest := length_of_scanExponent h
      have hdrop := (List.dropWhile_sublist Char.isDigit (l := more)).length_le
      simp only [List.length_cons]
      omega
  · exact length_of_scanExponent h

theorem length_of_scanUnsigned {negative : Bool} {start stop : Nat} {cs rest : List Char}
    {value : Except Fault Number} (h : scanUnsigned negative start cs = .found value stop rest) :
    rest.length < cs.length := by
  unfold scanUnsigned at h
  split at h
  · simp at h
  · simp at h
  · rename_i hwhole _
    exact Nat.lt_of_le_of_lt (length_of_scanFraction h) (length_dropWhile_lt hwhole)

theorem length_of_scanNumeral {start stop : Nat} {cs rest : List Char}
    {value : Except Fault Number} (h : scanNumeral start cs = .found value stop rest) :
    rest.length < cs.length := by
  unfold scanNumeral at h
  split at h
  · have := length_of_scanUnsigned h
    simp only [List.length_cons]
    omega
  · exact length_of_scanUnsigned h

end Formulary.Json
