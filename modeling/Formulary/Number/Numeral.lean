import Formulary.Number.Decimal
/-!
# Numerals

The written form of an unsigned number: digits with at most one point among or beside them, and an
optional exponent. A point may stand at either end but not alone, and an exponent without a digit is
no exponent. `Numeral.scan` takes the longest numeral off the front of a text, and `readNumber` reads
a whole text that may also carry a sign or name a special value.
-/

namespace Formulary

/-- The exponent of a numeral, as written. -/
structure Numeral.Exponent where
  letter : Char
  sign : Option Char
  digits : List Char

/-- A numeral, as written; `fraction` holds what follows the point, if there is a point. -/
structure Numeral where
  whole : List Char
  fraction : Option (List Char)
  exponent : Option Numeral.Exponent

/-- The number that a run of digits writes. -/
def digitsValue (digits : List Char) : Nat :=
  digits.foldl (fun n c => 10 * n + (c.toNat - '0'.toNat)) 0

namespace Numeral

/-- The characters of an exponent. -/
def Exponent.text (x : Exponent) : List Char :=
  x.letter :: x.sign.toList ++ x.digits

/-- The number that an exponent writes. -/
def Exponent.value (x : Exponent) : Int :=
  if x.sign = some '-' then -digitsValue x.digits else digitsValue x.digits

/-- The characters of a numeral. -/
def text (n : Numeral) : List Char :=
  n.whole ++ (n.fraction.elim [] ('.' :: ·)) ++ (n.exponent.elim [] Exponent.text)

/-- The number that a numeral writes. -/
def value (n : Numeral) : Decimal :=
  let places := n.fraction.getD []
  ⟨digitsValue (n.whole ++ places), n.exponent.elim 0 Exponent.value - places.length⟩

/-- Takes digits off the front as the digits of an exponent, if there are any. -/
def scanExponentDigits (letter : Char) (sign : Option Char) (cs : List Char) :
    Option (Exponent × List Char) :=
  match cs.takeWhile Char.isDigit with
  | [] => none
  | d :: ds => some (⟨letter, sign, d :: ds⟩, cs.dropWhile Char.isDigit)

/-- Takes an exponent off the front, if one is there. -/
def scanExponent : List Char → Option (Exponent × List Char)
  | [] => none
  | letter :: rest =>
    if letter = 'e' || letter = 'E' then
      match rest with
      | '+' :: more => scanExponentDigits letter (some '+') more
      | '-' :: more => scanExponentDigits letter (some '-') more
      | _ => scanExponentDigits letter none rest
    else none

/-- A numeral with the digits given, and the exponent that follows, if one does. -/
def withExponent (whole : List Char) (fraction : Option (List Char)) (cs : List Char) :
    Numeral × List Char :=
  match scanExponent cs with
  | some (x, rest) => (⟨whole, fraction, some x⟩, rest)
  | none => (⟨whole, fraction, none⟩, cs)

/-- Takes the longest numeral off the front, if there is one. -/
def scan (cs : List Char) : Option (Numeral × List Char) :=
  let whole := cs.takeWhile Char.isDigit
  match cs.dropWhile Char.isDigit with
  | '.' :: rest =>
    let places := rest.takeWhile Char.isDigit
    if whole = [] && places = [] then none
    else some (withExponent whole (some places) (rest.dropWhile Char.isDigit))
  | rest => if whole = [] then none else some (withExponent whole none rest)

/-! ## What was taken and what is left -/

theorem text_of_scanExponentDigits {letter : Char} {sign : Option Char} {cs rest : List Char}
    {x : Exponent} (h : scanExponentDigits letter sign cs = some (x, rest)) :
    x.text ++ rest = letter :: sign.toList ++ cs := by
  unfold scanExponentDigits at h
  split at h
  · simp at h
  · rename_i d ds hd
    simp only [Option.some.injEq, Prod.mk.injEq] at h
    obtain ⟨rfl, rfl⟩ := h
    have := List.takeWhile_append_dropWhile (p := Char.isDigit) (l := cs)
    simp only [hd] at this
    simp only [Exponent.text]
    rw [List.append_assoc, this]

theorem text_of_scanExponent {cs rest : List Char} {x : Exponent}
    (h : scanExponent cs = some (x, rest)) : x.text ++ rest = cs := by
  unfold scanExponent at h
  split at h
  · simp at h
  · split at h
    · split at h <;> simpa using text_of_scanExponentDigits h
    · simp at h

theorem text_withExponent (whole : List Char) (fraction : Option (List Char)) (cs : List Char) :
    (withExponent whole fraction cs).1.text ++ (withExponent whole fraction cs).2 =
      whole ++ fraction.elim [] ('.' :: ·) ++ cs := by
  unfold withExponent
  split
  · rename_i x rest h
    simp [text, ← text_of_scanExponent h]
  · simp [text]

theorem text_of_scan {cs rest : List Char} {n : Numeral} (h : scan cs = some (n, rest)) :
    n.text ++ rest = cs := by
  have hcs := List.takeWhile_append_dropWhile (p := Char.isDigit) (l := cs)
  unfold scan at h
  split at h
  · rename_i more hd
    dsimp only at h
    split at h
    · simp at h
    · have := text_withExponent (cs.takeWhile Char.isDigit)
        (some (more.takeWhile Char.isDigit)) (more.dropWhile Char.isDigit)
      simp only [Option.some.injEq] at h
      rw [h] at this
      rw [this]
      simp only [Option.elim_some, List.append_assoc, List.cons_append,
        List.takeWhile_append_dropWhile]
      rw [← hd, hcs]
  · dsimp only at h
    split at h
    · simp at h
    · have := text_withExponent (cs.takeWhile Char.isDigit) none (cs.dropWhile Char.isDigit)
      simp only [Option.some.injEq] at h
      rw [h] at this
      rw [this]
      simp

theorem text_withExponent_ne_nil {whole : List Char} {fraction : Option (List Char)}
    {cs : List Char} (h : whole ≠ [] ∨ fraction ≠ none) :
    (withExponent whole fraction cs).1.text ≠ [] := by
  unfold withExponent
  split <;> cases fraction <;> simp_all [text]

theorem text_ne_nil_of_scan {cs rest : List Char} {n : Numeral}
    (h : scan cs = some (n, rest)) : n.text ≠ [] := by
  unfold scan at h
  split at h
  · dsimp only at h
    split at h
    · simp at h
    · obtain rfl := congrArg Prod.fst (Option.some.inj h)
      exact text_withExponent_ne_nil (.inr (by simp))
  · dsimp only at h
    split at h
    · simp at h
    · rename_i hw
      obtain rfl := congrArg Prod.fst (Option.some.inj h)
      exact text_withExponent_ne_nil (.inl hw)

end Numeral

/-! ## Numbers with a sign -/

/-- Why a text is no number. -/
inductive NumberFault where
  | empty
  | malformed
deriving DecidableEq

namespace NumberFault

/-- The wording of the fault. -/
def message : NumberFault → String
  | empty => "cannot parse float from empty string"
  | malformed => "invalid float literal"

end NumberFault

/-- A number without its sign: a numeral or the name of a special value, in any case of letters. -/
def readUnsigned? (cs : List Char) : Option Float :=
  let lower := cs.map Char.toLower
  if lower = "inf".toList || lower = "infinity".toList then some positiveInfinity
  else if lower = "nan".toList then some notANumber
  else match Numeral.scan cs with
    | some (n, []) => some n.value.toFloat
    | _ => none

/-- The double nearest to the number that a text writes. -/
def readNumber (s : String) : Except NumberFault Float :=
  let read negative cs := ((readUnsigned? cs).map (withSign negative)).elim
    (.error .malformed) .ok
  match s.toList with
  | [] => .error .empty
  | '-' :: cs => read true cs
  | '+' :: cs => read false cs
  | cs => read false cs

end Formulary
