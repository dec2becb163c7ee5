import Formulary.Json.Numeral
import Formulary.Proofs.Number.Numeral
import Formulary.Proofs.Number.Range
import Mathlib.Data.List.Basic
/-!
# Numbers in JSON texts

What a numeral writes is an integer of 64 bits or a finite double (`Number.inRange_of_scanNumeral`). A
numeral is read in the same way wherever it stands and whatever follows it
(`scanNumeral_append`), and an integer is read back as it was (`scanNumeral_integerText`). Of a double
it is enough here that it is written with the characters of numerals (`isNumeralChar_of_mem_text`).
-/

namespace Formulary.Json

/-- An integer of 64 bits, with a sign or without, or a finite double. -/
def Number.InRange : Number → Prop
  | integer n => -2 ^ 63 ≤ n ∧ n < 2 ^ 64
  | real x => x.isFinite = true

/-! ## The numbers of numerals -/

lemma absorb_le {n : Nat} {cs : List Char} (hn : n ≤ maxSignificand) :
    (absorb n cs).1 ≤ maxSignificand := by
  fun_induction absorb n cs with
  | case1 n => exact hn
  | case2 n c cs next hnext ih => exact ih hnext
  | case3 n c cs next hnext => exact hn

lemma isFinite_withSign {x : Float} (negative : Bool) (h : x.isFinite = true) :
    (withSign negative x).isFinite = true := by
  cases negative
  · exact h
  · exact isFinite_neg h

lemma inRange_of_real? {negative : Bool} {significand : Nat} {shift : Int} {n : Number}
    (hsignificand : significand ≤ maxSignificand) (h : real? negative significand shift = some n) :
    n.InRange := by
  obtain ⟨x, hx, rfl⟩ := Option.map_eq_some_iff.1 h
  exact isFinite_withSign negative (isFinite_of_scaled? hsignificand hx)

lemma inRange_of_wholeNumber? {negative : Bool} {digits : List Char} {n : Number}
    (h : wholeNumber? negative digits = some n) : n.InRange := by
  have hle : (absorb 0 digits).1 ≤ maxSignificand := absorb_le (Nat.zero_le _)
  have hmax : maxSignificand + 1 = 2 ^ 64 := rfl
  rw [wholeNumber?] at h
  generalize absorb 0 digits = absorbed at h hle
  obtain ⟨significand, rest⟩ := absorbed
  dsimp only at h hle
  split at h
  · split at h
    · obtain rfl := Option.some.inj h
      exact ⟨by omega, by omega⟩
    · split at h
      · obtain rfl := Option.some.inj h
        exact isFinite_neg (isFinite_ofNat (by omega))
      · rename_i hin
        obtain rfl := Option.some.inj h
        have hleast : ¬ 2 ^ 63 < significand := by
          intro hlt
          exact hin (by simpa using Or.inr hlt)
        exact ⟨by omega, by omega⟩
  · exact inRange_of_real? hle h

lemma inRange_of_numeralValue {negative : Bool} {numeral : Numeral} {stop : Nat} {n : Number}
    (h : numeralValue negative numeral stop = .ok n) : n.InRange := by
  have hin : ∀ {o : Option Number}, o.elim (.error ⟨.outOfRange, stop⟩) .ok = (.ok n : Except Fault _) →
      o = some n := by
    rintro (_ | m) ho
    · exact absurd ho (by simp)
    · exact congrArg some (Except.ok.inj ho)
  have hwhole : (absorb 0 numeral.whole).1 ≤ maxSignificand := absorb_le (Nat.zero_le _)
  have hall : (absorb (absorb 0 numeral.whole).1 (numeral.fraction.getD [])).1 ≤ maxSignificand :=
    absorb_le hwhole
  rw [numeralValue] at h
  dsimp only at h
  split at h
  · exact inRange_of_wholeNumber? (hin h)
  · split at h
    · exact inRange_of_real? hall (hin h)
    · split at h
      · exact inRange_of_real? hall (hin h)
      · split at h
        · obtain rfl := Except.ok.inj h
          exact isFinite_withSign negative rfl
        · exact absurd h (by simp)

lemma exists_of_scanExponent {negative : Bool} {whole cs rest : List Char}
    {fraction : Option (List Char)} {position stop : Nat} {value : Except Fault Number}
    (h : scanExponent negative whole fraction position cs = .found value stop rest) :
    ∃ numeral, value = numeralValue negative numeral stop := by
  unfold scanExponent at h
  split at h
  · obtain ⟨rfl, rfl, -⟩ := NumeralScan.found.inj h
    exact ⟨_, rfl⟩
  · split at h
    · dsimp only at h
      split at h
      · exact absurd h (by simp)
      · obtain ⟨rfl, rfl, -⟩ := NumeralScan.found.inj h
        exact ⟨_, rfl⟩
    · obtain ⟨rfl, rfl, -⟩ := NumeralScan.found.inj h
      exact ⟨_, rfl⟩

lemma exists_of_scanUnsigned {negative : Bool} {start stop : Nat} {cs rest : List Char}
    {value : Except Fault Number} (h : scanUnsigned negative start cs = .found value stop rest) :
    ∃ numeral, value = numeralValue negative numeral stop := by
  unfold scanUnsigned at h
  split at h
  · exact absurd h (by simp)
  · exact absurd h (by simp)
  · unfold scanFraction at h
    split at h
    · dsimp only at h
      split at h
      · exact absurd h (by simp)
      · exact exists_of_scanExponent h
    · exact exists_of_scanExponent h

/-- The number that a numeral writes is in range. -/
theorem Number.inRange_of_scanNumeral {start stop : Nat} {cs rest : List Char} {n : Number}
    (h : scanNumeral start cs = .found (.ok n) stop rest) : n.InRange := by
  unfold scanNumeral at h
  split at h
  · obtain ⟨numeral, hvalue⟩ := exists_of_scanUnsigned h
    exact inRange_of_numeralValue hvalue.symm
  · obtain ⟨numeral, hvalue⟩ := exists_of_scanUnsigned h
    exact inRange_of_numeralValue hvalue.symm

/-! ## Numerals before other text -/

/-- Only what is wrong with a numeral depends on where it stops. -/
lemma numeralValue_of_ok {negative : Bool} {numeral : Numeral} {stop : Nat} {n : Number}
    (h : numeralValue negative numeral stop = .ok n) (stop' : Nat) :
    numeralValue negative numeral stop' = .ok n := by
  have hin : ∀ {o : Option Number}, o.elim (.error ⟨.outOfRange, stop⟩) .ok = (.ok n : Except Fault _) →
      o.elim (.error ⟨.outOfRange, stop'⟩) .ok = (.ok n : Except Fault _) := by
    rintro (_ | m) ho
    · exact absurd ho (by simp)
    · exact ho
  rw [numeralValue] at h ⊢
  dsimp only at h ⊢
  split at h
  · exact hin h
  · split at h
    · exact hin h
    · split at h
      · exact hin h
      · split at h
        · rename_i hzero
          rw [if_pos hzero]
          exact h
        · exact absurd h (by simp)

lemma takeSign_append {cs : List Char} (hcs : cs ≠ []) (rest : List Char) :
    takeSign (cs ++ rest) = ((takeSign cs).1, (takeSign cs).2 ++ rest) := by
  obtain ⟨c, cs, rfl⟩ := List.exists_cons_of_ne_nil hcs
  rw [List.cons_append]
  unfold takeSign
  split
  · rename_i hcons
    obtain ⟨rfl, rfl⟩ := List.cons.inj hcons
    rfl
  · rename_i hcons
    obtain ⟨rfl, rfl⟩ := List.cons.inj hcons
    rfl
  · rename_i hplus hminus
    split
    · rename_i hcons
      obtain ⟨rfl, rfl⟩ := List.cons.inj hcons
      exact absurd rfl (hplus _)
    · rename_i hcons
      obtain ⟨rfl, rfl⟩ := List.cons.inj hcons
      exact absurd rfl (hminus _)
    · rfl

section
variable {rest : List Char} (hrest : Stops Numeral.isNumeralChar rest)
include hrest

lemma exists_cons_of_append {cs more : List Char} {c : Char} (hc : Numeral.isNumeralChar c = true)
    (h : cs ++ rest = c :: more) : ∃ cs', cs = c :: cs' := by
  cases cs with
  | nil =>
    rw [List.nil_append] at h
    rw [h, stops_cons, hc] at hrest
    exact absurd hrest (by simp)
  | cons d cs =>
    obtain ⟨rfl, -⟩ := List.cons.inj h
    exact ⟨cs, rfl⟩

lemma scanExponent_append {negative : Bool} {whole cs : List Char} {fraction : Option (List Char)}
    {position stop : Nat} {n : Number}
    (h : scanExponent negative whole fraction position cs = .found (.ok n) stop []) (position' : Nat) :
    ∃ stop', scanExponent negative whole fraction position' (cs ++ rest) =
      .found (.ok n) stop' rest := by
  have hdigits := Numeral.stops_isDigit hrest
  cases cs with
  | nil =>
    obtain ⟨hvalue, rfl, -⟩ := NumeralScan.found.inj h
    have hvalue' := numeralValue_of_ok hvalue position'
    refine ⟨position', ?_⟩
    cases rest with
    | nil => rw [List.nil_append, scanExponent, hvalue']
    | cons c rest =>
      have hc : ¬ (c = 'e' || c = 'E') = true := by
        intro hletter
        have hnumeral := stops_cons.1 hrest
        rcases (Bool.or_eq_true_iff.1 hletter) with hletter | hletter
        · rw [of_decide_eq_true hletter] at hnumeral
          exact absurd hnumeral (by decide)
        · rw [of_decide_eq_true hletter] at hnumeral
          exact absurd hnumeral (by decide)
      rw [List.nil_append, scanExponent]
      dsimp only
      rw [if_neg hc, hvalue']
  | cons letter more =>
    rw [scanExponent] at h
    split at h
    · rename_i hletter
      dsimp only at h
      split at h
      · exact absurd h (by simp)
      · rename_i hdigits_ne
        obtain ⟨hvalue, rfl, hleft⟩ := NumeralScan.found.inj h
        have hmore : more ≠ [] := by
          rintro rfl
          exact hdigits_ne rfl
        have htake : ((takeSign more).2 ++ rest).takeWhile Char.isDigit =
            (takeSign more).2.takeWhile Char.isDigit := takeWhile_append_of_stops fun _ => hdigits
        have hdrop : ((takeSign more).2 ++ rest).dropWhile Char.isDigit = rest := by
          rw [dropWhile_append_of_stops fun _ => hdigits, hleft, List.nil_append]
        rw [List.cons_append, scanExponent, if_pos hletter, takeSign_append hmore]
        dsimp only
        rw [htake, hdrop, if_neg hdigits_ne, numeralValue_of_ok hvalue]
        exact ⟨_, rfl⟩
    · exact absurd (NumeralScan.found.inj h).2.2 (by simp)

lemma scanFraction_append {negative : Bool} {whole cs : List Char} {position stop : Nat} {n : Number}
    (h : scanFraction negative whole position cs = .found (.ok n) stop []) (position' : Nat) :
    ∃ stop', scanFraction negative whole position' (cs ++ rest) = .found (.ok n) stop' rest := by
  have hdigits := Numeral.stops_isDigit hrest
  unfold scanFraction at h
  split at h
  · rename_i more
    dsimp only at h
    split at h
    · exact absurd h (by simp)
    · rename_i hplaces
      have htake : (more ++ rest).takeWhile Char.isDigit = more.takeWhile Char.isDigit :=
        takeWhile_append_of_stops fun _ => hdigits
      have hdrop : (more ++ rest).dropWhile Char.isDigit = more.dropWhile Char.isDigit ++ rest :=
        dropWhile_append_of_stops fun _ => hdigits
      rw [List.cons_append, scanFraction, htake, hdrop, if_neg hplaces]
      exact scanExponent_append hrest h _
  · rename_i hpoint
    unfold scanFraction
    split
    · rename_i more hmore
      obtain ⟨cs', rfl⟩ := exists_cons_of_append hrest (by decide) hmore
      exact absurd rfl (hpoint cs')
    · exact scanExponent_append hrest h position'

lemma scanUnsigned_append {negative : Bool} {start stop : Nat} {cs : List Char} {n : Number}
    (h : scanUnsigned negative start cs = .found (.ok n) stop []) (start' : Nat) :
    ∃ stop', scanUnsigned negative start' (cs ++ rest) = .found (.ok n) stop' rest := by
  have hdigits := Numeral.stops_isDigit hrest
  have htake : (cs ++ rest).takeWhile Char.isDigit = cs.takeWhile Char.isDigit :=
    takeWhile_append_of_stops fun _ => hdigits
  have hdrop : (cs ++ rest).dropWhile Char.isDigit = cs.dropWhile Char.isDigit ++ rest :=
    dropWhile_append_of_stops fun _ => hdigits
  unfold scanUnsigned at h ⊢
  rw [htake, hdrop]
  split at h
  · exact absurd h (by simp)
  · exact absurd h (by simp)
  · exact scanFraction_append hrest h _

/-- A numeral is read in the same way wherever it stands, if what follows cannot belong to it. -/
theorem scanNumeral_append {start stop : Nat} {cs : List Char} {n : Number}
    (h : scanNumeral start cs = .found (.ok n) stop []) (start' : Nat) :
    ∃ stop', scanNumeral start' (cs ++ rest) = .found (.ok n) stop' rest := by
  unfold scanNumeral at h
  split at h
  · exact scanUnsigned_append hrest h _
  · rename_i hminus
    unfold scanNumeral
    split
    · rename_i more hmore
      obtain ⟨cs', rfl⟩ := exists_cons_of_append hrest (by decide) hmore
      exact absurd rfl (hminus cs')
    · exact scanUnsigned_append hrest h start'

end

/-! ## Integers -/

lemma absorb_concat {n m : Nat} {cs : List Char} {c : Char} (h : absorb n cs = (m, []))
    (hc : 10 * m + (c.toNat - '0'.toNat) ≤ maxSignificand) :
    absorb n (cs ++ [c]) = (10 * m + (c.toNat - '0'.toNat), []) := by
  fun_induction absorb n cs with
  | case1 n =>
    obtain ⟨rfl, -⟩ := Prod.mk.inj h
    rw [List.nil_append, absorb, if_pos hc, absorb]
  | case2 n d cs next hnext ih =>
    rw [List.cons_append, absorb, if_pos hnext, ih h]
  | case3 n d cs next hnext => exact absurd (Prod.mk.inj h).2 (by simp)

/-- The digits of a number that has room are absorbed to the number. -/
lemma absorb_digitsOf {n : Nat} (hn : n ≤ maxSignificand) :
    absorb 0 (Decimal.digitsOf n) = (n, []) := by
  rw [Decimal.digitsOf]
  induction n using Nat.strong_induction_on with
  | _ n ih =>
    rcases Nat.lt_or_ge n 10 with hlt | hle
    · have hvalue : n.digitChar.toNat - '0'.toNat = n := Nat.toNat_digitChar_sub_48_of_lt_ten hlt
      have h := absorb_concat (c := n.digitChar) (rfl : absorb 0 [] = (0, [])) (by omega)
      rw [hvalue, Nat.mul_zero, Nat.zero_add] at h
      rw [Nat.toDigits_of_lt_base hlt]
      exact h
    · have hvalue : (n % 10).digitChar.toNat - '0'.toNat = n % 10 :=
        Nat.toNat_digitChar_sub_48_of_lt_ten (Nat.mod_lt n (by decide))
      have hfront := ih (n / 10) (Nat.div_lt_self (by omega) (by decide)) (by omega)
      have h := absorb_concat (c := (n % 10).digitChar) hfront (by omega)
      rw [hvalue, Nat.div_add_mod] at h
      rw [Nat.toDigits_of_base_le (by decide) hle]
      exact h

lemma isDigit_of_mem_digitsOf {n : Nat} {c : Char} (hc : c ∈ Decimal.digitsOf n) :
    c.isDigit = true :=
  Nat.isDigit_of_mem_toDigits (by decide) (by decide) hc

lemma eq_zero_of_head?_digitsOf {n : Nat} (h : (Decimal.digitsOf n).head? = some '0') : n = 0 := by
  rw [Decimal.digitsOf] at h
  induction n using Nat.strong_induction_on with
  | _ n ih =>
    rcases Nat.lt_or_ge n 10 with hlt | hle
    · rw [Nat.toDigits_of_lt_base hlt] at h
      simpa using h
    · rw [Nat.toDigits_of_base_le (by decide) hle,
        List.head?_append_of_ne_nil _ Nat.toDigits_ne_nil] at h
      have := ih (n / 10) (Nat.div_lt_self (by omega) (by decide)) h
      omega

/-- No number of more than one digit begins with a zero. -/
lemma digitsOf_ne_zero_cons {n : Nat} {c : Char} {cs : List Char} :
    Decimal.digitsOf n ≠ '0' :: c :: cs := by
  intro h
  obtain rfl := eq_zero_of_head?_digitsOf (n := n) (by rw [h]; rfl)
  rw [Decimal.digitsOf, Nat.toDigits_zero] at h
  exact absurd (List.cons.inj h).2 (by simp)

lemma scanUnsigned_digitsOf (negative : Bool) (n start : Nat) :
    ∃ stop, scanUnsigned negative start (Decimal.digitsOf n) =
      .found (numeralValue negative ⟨Decimal.digitsOf n, none, none⟩ stop) stop [] := by
  have htake : (Decimal.digitsOf n).takeWhile Char.isDigit = Decimal.digitsOf n :=
    List.takeWhile_eq_self_iff.2 fun c hc => isDigit_of_mem_digitsOf hc
  have hdrop : (Decimal.digitsOf n).dropWhile Char.isDigit = [] :=
    List.dropWhile_eq_nil_iff.2 fun c hc => isDigit_of_mem_digitsOf hc
  unfold scanUnsigned
  rw [htake, hdrop]
  split
  · rename_i hnil
    exact absurd hnil Nat.toDigits_ne_nil
  · rename_i hzero
    exact absurd hzero digitsOf_ne_zero_cons
  · exact ⟨_, rfl⟩

/-- An integer in range is read back as it was. -/
theorem scanNumeral_integerText {n : Int} (h : (Number.integer n).InRange) :
    ∃ stop, scanNumeral 0 (Number.integerText n) = .found (.ok (.integer n)) stop [] := by
  obtain ⟨hleast, hgreatest⟩ := h
  have hmax : maxSignificand + 1 = 2 ^ 64 := rfl
  cases n with
  | ofNat n =>
    have hn : n ≤ maxSignificand := by
      have : (n : Int) < 2 ^ 64 := hgreatest
      omega
    obtain ⟨stop, hstop⟩ := scanUnsigned_digitsOf false n 0
    have hvalue : numeralValue false ⟨Decimal.digitsOf n, none, none⟩ stop = .ok (.integer n) := by
      rw [numeralValue]
      dsimp only
      rw [wholeNumber?, absorb_digitsOf hn]
      rfl
    rw [hvalue] at hstop
    refine ⟨stop, ?_⟩
    change scanNumeral 0 (Decimal.digitsOf n) = _
    unfold scanNumeral
    split
    · rename_i cs hminus
      have hdigit : '-'.isDigit = true :=
        isDigit_of_mem_digitsOf (n := n) (by rw [hminus]; exact List.mem_cons_self)
      exact absurd hdigit (by decide)
    · exact hstop
  | negSucc n =>
    have hn : n + 1 ≤ 2 ^ 63 := by omega
    obtain ⟨stop, hstop⟩ := scanUnsigned_digitsOf true (n + 1) 1
    have hvalue : numeralValue true ⟨Decimal.digitsOf (n + 1), none, none⟩ stop =
        .ok (.integer (.negSucc n)) := by
      rw [numeralValue]
      dsimp only
      rw [wholeNumber?, absorb_digitsOf (by omega)]
      dsimp only
      rw [if_pos rfl, if_neg (by simp), if_neg (by simp; omega)]
      rfl
    rw [hvalue] at hstop
    exact ⟨stop, hstop⟩

/-! ## Characters of numbers -/

lemma isNumeralChar_of_mem_digitsOf {n : Nat} :
    ∀ c ∈ Decimal.digitsOf n, Numeral.isNumeralChar c = true := by
  intro c hc
  simp [Numeral.isNumeralChar, isDigit_of_mem_digitsOf hc]

lemma isNumeralChar_of_mem_positionalText {d : Decimal} {pointZero : Bool} :
    ∀ c ∈ d.positionalText pointZero, Numeral.isNumeralChar c = true := by
  have hdigits := isNumeralChar_of_mem_digitsOf (n := d.coefficient)
  intro c hc
  unfold Decimal.positionalText at hc
  split at hc
  · rcases List.mem_append.1 hc with hc | hc
    · rcases List.mem_append.1 hc with hc | hc
      · exact hdigits c hc
      · obtain rfl := List.eq_of_mem_replicate hc
        rfl
    · split at hc
      · rcases List.mem_pair.1 hc with rfl | rfl <;> rfl
      · exact absurd hc (by simp)
  · dsimp only at hc
    split at hc
    · rcases List.mem_append.1 hc with hc | hc
      · exact hdigits c (List.mem_of_mem_take hc)
      · rcases List.mem_cons.1 hc with rfl | hc
        · rfl
        · exact hdigits c (List.mem_of_mem_drop hc)
    · rcases List.mem_append.1 hc with hc | hc
      · rcases List.mem_cons.1 hc with rfl | hc
        · rfl
        · rcases List.mem_cons.1 hc with rfl | hc
          · rfl
          · obtain rfl := List.eq_of_mem_replicate hc
            rfl
      · exact hdigits c hc

lemma isNumeralChar_of_mem_scientificText {d : Decimal} :
    ∀ c ∈ d.scientificText ['+'], Numeral.isNumeralChar c = true := by
  have hdigits := isNumeralChar_of_mem_digitsOf (n := d.coefficient)
  intro c hc
  unfold Decimal.scientificText at hc
  rcases List.mem_append.1 hc with hc | hc
  · split at hc
    · rename_i first second rest hcoefficient
      rw [hcoefficient] at hdigits
      rcases List.mem_cons.1 hc with rfl | hc
      · exact hdigits c List.mem_cons_self
      · rcases List.mem_cons.1 hc with rfl | hc
        · rfl
        · exact hdigits c (List.mem_cons_of_mem first hc)
    · exact hdigits c hc
  · rcases List.mem_cons.1 hc with rfl | hc
    · rfl
    · split at hc
      · rcases List.mem_append.1 hc with hc | hc
        · obtain rfl := List.mem_singleton.1 hc
          rfl
        · exact isNumeralChar_of_mem_digitsOf c hc
      · rcases List.mem_cons.1 hc with rfl | hc
        · rfl
        · exact isNumeralChar_of_mem_digitsOf c hc

/-- A finite double is written with the characters of numerals. -/
lemma isNumeralChar_of_mem_text {x : Float} (hx : x.isFinite = true) :
    ∀ c ∈ (Number.real x).text, Numeral.isNumeralChar c = true := by
  obtain ⟨negative, m, e, hbinary⟩ := isFinite_iff.1 hx
  intro c hc
  rw [Number.text, NumberStyle.text, hbinary] at hc
  dsimp only at hc
  rw [String.toList_ofList] at hc
  rcases List.mem_append.1 hc with hc | hc
  · split at hc
    · obtain rfl := List.mem_singleton.1 hc
      rfl
    · exact absurd hc (by simp)
  · unfold NumberStyle.digits at hc
    dsimp only at hc
    split at hc
    · exact isNumeralChar_of_mem_positionalText c hc
    · exact isNumeralChar_of_mem_scientificText c hc

/-! ## What numerals leave -/

section
variable {stop : Nat} {rest : List Char} {value : Except Fault Number}

lemma suffix_takeSign (cs : List Char) : (takeSign cs).2 <:+ cs := by
  unfold takeSign
  split
  · exact List.suffix_cons _ _
  · exact List.suffix_cons _ _
  · exact List.suffix_rfl

lemma suffix_of_scanExponent {negative : Bool} {whole cs : List Char}
    {fraction : Option (List Char)} {position : Nat}
    (h : scanExponent negative whole fraction position cs = .found value stop rest) :
    rest <:+ cs := by
  unfold scanExponent at h
  split at h
  · obtain ⟨-, -, rfl⟩ := NumeralScan.found.inj h
    exact List.suffix_rfl
  · rename_i letter more
    split at h
    · dsimp only at h
      split at h
      · exact absurd h (by simp)
      · obtain ⟨-, -, rfl⟩ := NumeralScan.found.inj h
        exact ((List.dropWhile_suffix _).trans (suffix_takeSign more)).trans (List.suffix_cons _ _)
    · obtain ⟨-, -, rfl⟩ := NumeralScan.found.inj h
      exact List.suffix_rfl

lemma suffix_of_scanFraction {negative : Bool} {whole cs : List Char} {position : Nat}
    (h : scanFraction negative whole position cs = .found value stop rest) : rest <:+ cs := by
  unfold scanFraction at h
  split at h
  · dsimp only at h
    split at h
    · exact absurd h (by simp)
    · exact ((suffix_of_scanExponent h).trans (List.dropWhile_suffix _)).trans (List.suffix_cons _ _)
  · exact suffix_of_scanExponent h

lemma suffix_of_scanUnsigned {negative : Bool} {start : Nat} {cs : List Char}
    (h : scanUnsigned negative start cs = .found value stop rest) : rest <:+ cs := by
  unfold scanUnsigned at h
  split at h
  · exact absurd h (by simp)
  · exact absurd h (by simp)
  · exact (suffix_of_scanFraction h).trans (List.dropWhile_suffix _)

/-- What is left after a numeral is the end of the text. -/
lemma suffix_of_scanNumeral {start : Nat} {cs : List Char}
    (h : scanNumeral start cs = .found value stop rest) : rest <:+ cs := by
  unfold scanNumeral at h
  split at h
  · exact (suffix_of_scanUnsigned h).trans (List.suffix_cons _ _)
  · exact suffix_of_scanUnsigned h

end

end Formulary.Json
