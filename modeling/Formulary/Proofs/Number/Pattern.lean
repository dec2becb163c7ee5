import Formulary.Proofs.Number.Numeral
import Formulary.Proofs.Text.Patterns
/-!
# The pattern of numerals

The texts of numerals are those of a pattern (`Numeral.mem_numeralPattern`): digits with at most one
point among or beside them, and an exponent if one is there. `Numeral.scan` reads such a text as the
numeral that it is (`Numeral.scan_text`), and where one is at the front it takes off no shorter one
(`Numeral.exists_scan`). Read as a number on its own, the text gives what the numeral writes
(`readNumber_text`).
-/

namespace Formulary

open Computability

/-- The letter of an exponent, a sign or none, and digits. -/
def exponentPattern : Language Char :=
  oneOf (fun c => c = 'e' || c = 'E') * (optional (oneOf fun c => c = '+' || c = '-') *
    atLeastOne Char.isDigit)

/-- Digits with a point after or among them or with none, or else digits after a point. -/
def digitsPattern : Language Char :=
  atLeastOne Char.isDigit * (optional (literal ['.']) * (oneOf Char.isDigit)∗) +
    literal ['.'] * atLeastOne Char.isDigit

/-- The texts of unsigned numbers. -/
def numeralPattern : Language Char :=
  digitsPattern * optional exponentPattern

namespace Numeral

/-! ## Proper numerals -/

/-- An exponent that can be written. -/
structure Exponent.Proper (x : Exponent) : Prop where
  letter : x.letter = 'e' ∨ x.letter = 'E'
  sign : ∀ c ∈ x.sign, c = '+' ∨ c = '-'
  ne_nil : x.digits ≠ []
  digits : ∀ c ∈ x.digits, c.isDigit = true

/-- A numeral that can be written. -/
structure Proper (n : Numeral) : Prop where
  whole : ∀ c ∈ n.whole, c.isDigit = true
  fraction : ∀ c ∈ n.fraction.getD [], c.isDigit = true
  ne_nil : n.whole ≠ [] ∨ n.fraction.getD [] ≠ []
  exponent : ∀ x ∈ n.exponent, x.Proper

section
variable {cs more rest : List Char} {n : Numeral} {x : Exponent}

lemma mem_exponentPattern : cs ∈ exponentPattern ↔ ∃ x : Exponent, x.Proper ∧ x.text = cs := by
  rw [exponentPattern, mem_oneOf_mul]
  constructor
  · rintro ⟨letter, ds, rfl, hletter, hds⟩
    obtain ⟨sign, hsign, digits, hdigits, rfl⟩ := Language.mem_mul.1 hds
    rw [mem_atLeastOne] at hdigits
    have hletter : letter = 'e' ∨ letter = 'E' := by simpa using hletter
    rcases mem_optional.1 hsign with rfl | ⟨c, hc, rfl⟩
    · exact ⟨⟨letter, none, digits⟩, ⟨hletter, by simp, hdigits.1, hdigits.2⟩, rfl⟩
    · exact ⟨⟨letter, some c, digits⟩, ⟨hletter, by simpa using hc, hdigits.1, hdigits.2⟩, rfl⟩
  · rintro ⟨⟨letter, sign, digits⟩, ⟨hletter, hsign, hne, hdigits⟩, rfl⟩
    refine ⟨letter, sign.toList ++ digits, rfl, by simpa using hletter, ?_⟩
    refine Language.append_mem_mul ?_ (mem_atLeastOne.2 ⟨hne, hdigits⟩)
    cases sign with
    | none => exact mem_optional.2 (.inl rfl)
    | some c => exact mem_optional.2 (.inr ⟨c, by simpa using hsign, rfl⟩)

lemma mem_digitsPattern : cs ∈ digitsPattern ↔
    ∃ (whole : List Char) (fraction : Option (List Char)), cs = whole ++ fraction.elim [] ('.' :: ·) ∧
      (whole ≠ [] ∨ fraction.getD [] ≠ []) ∧ (∀ c ∈ whole, c.isDigit = true) ∧
      ∀ c ∈ fraction.getD [], c.isDigit = true := by
  rw [digitsPattern, Language.mem_add, mem_literal_mul, Language.mem_mul]
  constructor
  · rintro (⟨whole, hwhole, _, hmore, rfl⟩ | ⟨places, hplaces, rfl⟩)
    · rw [mem_atLeastOne] at hwhole
      obtain ⟨point, hpoint, places, hplaces, rfl⟩ := Language.mem_mul.1 hmore
      rw [mem_many] at hplaces
      rcases mem_optional.1 hpoint with rfl | hpoint
      · -- without a point all the digits come before it
        refine ⟨whole ++ places, none, by simp, .inl (by simp [hwhole.1]), ?_, by simp⟩
        exact List.forall_mem_append.2 ⟨hwhole.2, hplaces⟩
      · obtain rfl := mem_literal.1 hpoint
        exact ⟨whole, some places, rfl, .inl hwhole.1, hwhole.2, hplaces⟩
    · rw [mem_atLeastOne] at hplaces
      exact ⟨[], some places, rfl, .inr hplaces.1, by simp, hplaces.2⟩
  · rintro ⟨whole, fraction, rfl, hne, hwhole, hplaces⟩
    cases fraction with
    | none =>
      have hne : whole ≠ [] := by simpa using hne
      exact .inl ⟨whole, mem_atLeastOne.2 ⟨hne, hwhole⟩, [],
        Language.append_mem_mul (mem_optional.2 (.inl rfl)) (Language.nil_mem_kstar _), rfl⟩
    | some places =>
      by_cases hnil : whole = []
      · subst hnil
        have hne : places ≠ [] := by simpa using hne
        exact .inr ⟨places, mem_atLeastOne.2 ⟨hne, hplaces⟩, rfl⟩
      · have hpoint : ['.'] ∈ optional (literal ['.']) := mem_optional.2 (.inr rfl)
        exact .inl ⟨whole, mem_atLeastOne.2 ⟨hnil, hwhole⟩, _,
          Language.append_mem_mul hpoint (mem_many.2 hplaces), rfl⟩

/-- The texts of the pattern are those of proper numerals. -/
theorem mem_numeralPattern : cs ∈ numeralPattern ↔ ∃ n : Numeral, n.Proper ∧ n.text = cs := by
  rw [numeralPattern, Language.mem_mul]
  constructor
  · rintro ⟨ds, hds, es, hes, rfl⟩
    obtain ⟨whole, fraction, rfl, hne, hwhole, hfraction⟩ := mem_digitsPattern.1 hds
    rcases mem_optional.1 hes with rfl | hes
    · exact ⟨⟨whole, fraction, none⟩, ⟨hwhole, hfraction, hne, by simp⟩, rfl⟩
    · obtain ⟨x, hx, rfl⟩ := mem_exponentPattern.1 hes
      exact ⟨⟨whole, fraction, some x⟩, ⟨hwhole, hfraction, hne, by simpa using hx⟩, rfl⟩
  · rintro ⟨⟨whole, fraction, exponent⟩, ⟨hwhole, hfraction, hne, hexponent⟩, rfl⟩
    refine ⟨_, mem_digitsPattern.2 ⟨whole, fraction, rfl, hne, hwhole, hfraction⟩, _, ?_, rfl⟩
    cases exponent with
    | none => exact mem_optional.2 (.inl rfl)
    | some x => exact mem_optional.2 (.inr (mem_exponentPattern.2 ⟨x, hexponent x rfl, rfl⟩))

/-! ## What is scanned is proper -/

lemma proper_of_scanExponentDigits {letter : Char} {sign : Option Char}
    (hletter : letter = 'e' ∨ letter = 'E') (hsign : ∀ c ∈ sign, c = '+' ∨ c = '-')
    (h : scanExponentDigits letter sign cs = some (x, rest)) : x.Proper := by
  rw [scanExponentDigits] at h
  split at h
  · exact absurd h (by simp)
  · rename_i d ds hd
    obtain ⟨rfl, -⟩ : _ ∧ _ := by simpa using h
    refine ⟨hletter, hsign, by simp, fun c hc => ?_⟩
    rw [← hd] at hc
    exact List.mem_takeWhile_imp hc

lemma proper_of_scanExponent (h : scanExponent cs = some (x, rest)) : x.Proper := by
  unfold scanExponent at h
  split at h
  · exact absurd h (by simp)
  · split at h
    · rename_i letter more hletter
      have hletter : letter = 'e' ∨ letter = 'E' := by simpa using hletter
      split at h
      · exact proper_of_scanExponentDigits hletter (by simp) h
      · exact proper_of_scanExponentDigits hletter (by simp) h
      · exact proper_of_scanExponentDigits hletter (by simp) h
    · exact absurd h (by simp)

lemma proper_withExponent {whole : List Char} {fraction : Option (List Char)}
    (hwhole : ∀ c ∈ whole, c.isDigit = true) (hfraction : ∀ c ∈ fraction.getD [], c.isDigit = true)
    (hne : whole ≠ [] ∨ fraction.getD [] ≠ []) (cs : List Char) :
    (withExponent whole fraction cs).1.Proper := by
  rw [withExponent]
  split
  · rename_i x more hx
    exact ⟨hwhole, hfraction, hne, by simpa using proper_of_scanExponent hx⟩
  · exact ⟨hwhole, hfraction, hne, by simp⟩

theorem proper_of_scan (h : scan cs = some (n, rest)) : n.Proper := by
  have hdigits : ∀ ds : List Char, ∀ c ∈ ds.takeWhile Char.isDigit, c.isDigit = true :=
    fun ds c hc => List.mem_takeWhile_imp hc
  unfold scan at h
  split at h
  · rename_i more hd
    dsimp only at h
    split at h
    · exact absurd h (by simp)
    · rename_i hne
      obtain rfl := congrArg Prod.fst (Option.some.inj h)
      rw [Bool.and_eq_true, decide_eq_true_iff, decide_eq_true_iff, not_and_or] at hne
      have hplaces : ∀ c ∈ (some (more.takeWhile Char.isDigit)).getD [], c.isDigit = true :=
        hdigits more
      exact proper_withExponent (hdigits cs) hplaces hne _
  · dsimp only at h
    split at h
    · exact absurd h (by simp)
    · rename_i hne
      obtain rfl := congrArg Prod.fst (Option.some.inj h)
      exact proper_withExponent (hdigits cs) (by simp) (.inl hne) _

/-! ## The longest numeral -/

lemma scanExponentDigits_append_digits {ds : List Char} (hne : ds ≠ [])
    (hds : ∀ c ∈ ds, c.isDigit = true) (letter : Char) (sign : Option Char) (more : List Char) :
    scanExponentDigits letter sign (ds ++ more) =
      some (⟨letter, sign, ds ++ more.takeWhile Char.isDigit⟩, more.dropWhile Char.isDigit) := by
  obtain ⟨d, ds, rfl⟩ := List.exists_cons_of_ne_nil hne
  rw [scanExponentDigits, List.takeWhile_append_of_pos hds, List.dropWhile_append_of_pos hds]
  rfl

/-- An exponent is taken off the front together with the digits that come after it. -/
lemma scanExponent_text_append (hx : x.Proper) (more : List Char) :
    scanExponent (x.text ++ more) =
      some (⟨x.letter, x.sign, x.digits ++ more.takeWhile Char.isDigit⟩,
        more.dropWhile Char.isDigit) := by
  obtain ⟨letter, sign, digits⟩ := x
  obtain ⟨hletter, hsign, hne, hdigits⟩ := hx
  have hscan := scanExponentDigits_append_digits hne hdigits letter sign more
  have hexponent : (letter = 'e' || letter = 'E') = true := by simpa using hletter
  cases sign with
  | some c =>
    rcases hsign c rfl with rfl | rfl <;> simpa [Exponent.text, scanExponent, hexponent] using hscan
  | none =>
    obtain ⟨d, ds, rfl⟩ := List.exists_cons_of_ne_nil hne
    have hdigit : d.isDigit = true := hdigits d List.mem_cons_self
    have hunsigned : scanExponent (letter :: (d :: ds ++ more)) =
        scanExponentDigits letter none (d :: ds ++ more) := by
      rw [scanExponent, if_pos hexponent]
      -- a digit is no sign
      · rintro _ hplus
        obtain ⟨rfl, -⟩ := List.cons.inj hplus
        exact absurd hdigit (by decide)
      · rintro _ hminus
        obtain ⟨rfl, -⟩ := List.cons.inj hminus
        exact absurd hdigit (by decide)
    exact hunsigned.trans hscan

section
variable {whole : List Char} {fraction : Option (List Char)}

lemma length_withExponent (whole : List Char) (fraction : Option (List Char)) (cs : List Char) :
    (text ⟨whole, fraction, none⟩).length ≤ (withExponent whole fraction cs).1.text.length := by
  rw [withExponent]
  split <;> simp [text]

/-- What comes after digits cannot be taken for more of them. -/
structure Ends (fraction : Option (List Char)) (cs : List Char) : Prop where
  digits : Stops Char.isDigit cs
  point : fraction = none → ∀ more, cs ≠ '.' :: more

/-- The digits of a numeral are taken off the front, and then its exponent. -/
lemma scan_digits (hn : Proper ⟨whole, fraction, none⟩) (h : Ends fraction cs) :
    scan (text ⟨whole, fraction, none⟩ ++ cs) = some (withExponent whole fraction cs) := by
  obtain ⟨hwhole, hfraction, hne, -⟩ := hn
  obtain ⟨hcs, hpoint⟩ := h
  cases fraction with
  | none =>
    have hne : whole ≠ [] := by simpa using hne
    have hdrop : (whole ++ cs).dropWhile Char.isDigit = cs := dropWhile_run hwhole hcs
    have hscan : scan (whole ++ cs) = some (withExponent whole none cs) := by
      rw [scan_of_no_point, takeWhile_run hwhole hcs, hdrop, if_neg hne]
      rw [hdrop]
      exact hpoint rfl
    simpa [text] using hscan
  | some places =>
    have hplaces : ∀ c ∈ places, c.isDigit = true := hfraction
    have hstop : Stops Char.isDigit ('.' :: (places ++ cs)) := stops_cons.2 rfl
    have hscan : scan (whole ++ '.' :: (places ++ cs)) =
        some (withExponent whole (some places) cs) := by
      rw [scan_of_point (dropWhile_run hwhole hstop), takeWhile_run hwhole hstop,
        takeWhile_run hplaces hcs, dropWhile_run hplaces hcs]
      exact if_neg (not_and_or.2 hne)
    simpa [text] using hscan

/-- Digits can be continued to where they end. -/
lemma exists_ends (hn : Proper ⟨whole, fraction, none⟩) (cs : List Char) :
    ∃ whole' fraction' rest, Proper ⟨whole', fraction', none⟩ ∧ Ends fraction' rest ∧
      text ⟨whole, fraction, none⟩ ++ cs = text ⟨whole', fraction', none⟩ ++ rest ∧
      (text ⟨whole, fraction, none⟩).length ≤ (text ⟨whole', fraction', none⟩).length := by
  obtain ⟨hwhole, hfraction, hne, -⟩ := hn
  have hsplit : ∀ ds : List Char, ds.takeWhile Char.isDigit ++ ds.dropWhile Char.isDigit = ds :=
    fun ds => List.takeWhile_append_dropWhile
  have hdigits : ∀ ds : List Char, ∀ c ∈ ds.takeWhile Char.isDigit, c.isDigit = true :=
    fun ds c hc => List.mem_takeWhile_imp hc
  cases fraction with
  | some places =>
    refine ⟨whole, some (places ++ cs.takeWhile Char.isDigit), cs.dropWhile Char.isDigit,
      ⟨hwhole, List.forall_mem_append.2 ⟨hfraction, hdigits cs⟩, ?_, by simp⟩,
      ⟨stops_dropWhile _ cs, by simp⟩, ?_, ?_⟩
    · exact hne.imp_right fun h => List.append_ne_nil_of_left_ne_nil h _
    · simp [text, hsplit]
    · simp [text]
  | none =>
    have hne : whole ++ cs.takeWhile Char.isDigit ≠ [] :=
      List.append_ne_nil_of_left_ne_nil (by simpa using hne) _
    have hwhole' : ∀ c ∈ whole ++ cs.takeWhile Char.isDigit, c.isDigit = true :=
      List.forall_mem_append.2 ⟨hwhole, hdigits cs⟩
    by_cases hpoint : ∃ more, cs.dropWhile Char.isDigit = '.' :: more
    · obtain ⟨more, hmore⟩ := hpoint
      refine ⟨_, some (more.takeWhile Char.isDigit), more.dropWhile Char.isDigit,
        ⟨hwhole', hdigits more, .inl hne, by simp⟩, ⟨stops_dropWhile _ more, by simp⟩, ?_, ?_⟩
      · have hcs := hsplit cs
        rw [hmore] at hcs
        simp [text, hsplit, hcs]
      · simp [text]
    · exact ⟨_, none, cs.dropWhile Char.isDigit, ⟨hwhole', by simp, .inl hne, by simp⟩,
        ⟨stops_dropWhile _ cs, fun _ => not_exists.1 hpoint⟩, by simp [text, hsplit], by simp [text]⟩

lemma Proper.digitsOnly {exponent : Option Exponent} (hn : Proper ⟨whole, fraction, exponent⟩) :
    Proper ⟨whole, fraction, none⟩ :=
  ⟨hn.whole, hn.fraction, hn.ne_nil, by simp⟩

/-- A numeral with an exponent is taken off the front together with the digits that come after it. -/
lemma scan_of_exponent (hn : Proper ⟨whole, fraction, some x⟩) (more : List Char) :
    scan (text ⟨whole, fraction, some x⟩ ++ more) =
      some (⟨whole, fraction, some ⟨x.letter, x.sign, x.digits ++ more.takeWhile Char.isDigit⟩⟩,
        more.dropWhile Char.isDigit) := by
  have hx : x.Proper := hn.exponent x rfl
  have hends : Ends fraction (x.text ++ more) := by
    constructor
    · refine stops_cons.2 ?_
      rcases hx.letter with h | h <;> simp [h]
    · intro _ ds hds
      obtain ⟨hpoint, -⟩ := List.cons.inj hds
      rcases hx.letter with h | h <;> simp [h] at hpoint
  have hscan := scan_digits hn.digitsOnly hends
  rw [withExponent, scanExponent_text_append hx] at hscan
  simpa [text] using hscan

end

/-- A proper numeral is read as itself. -/
theorem scan_text (hn : n.Proper) : scan n.text = some (n, []) := by
  obtain ⟨whole, fraction, exponent⟩ := n
  cases exponent with
  | some x => simpa using scan_of_exponent hn []
  | none =>
    have hscan := scan_digits hn ⟨Stops.nil, by simp⟩
    rwa [List.append_nil] at hscan

/-- No proper numeral at the front is longer than the one that is taken off. -/
theorem exists_scan (hn : n.Proper) (more : List Char) :
    ∃ n' rest, scan (n.text ++ more) = some (n', rest) ∧ n.text.length ≤ n'.text.length := by
  obtain ⟨whole, fraction, exponent⟩ := n
  cases exponent with
  | some x => exact ⟨_, _, scan_of_exponent hn more, by simp [text, Exponent.text]⟩
  | none =>
    obtain ⟨whole', fraction', rest, hn', hends, htext, hlength⟩ := exists_ends hn more
    exact ⟨_, _, htext ▸ scan_digits hn' hends, hlength.trans (length_withExponent _ _ _)⟩

end

end Numeral

lemma toLower_of_isDigit {c : Char} (h : c.isDigit = true) : c.toLower = c := by
  have hgreatest : c.val ≤ '9'.val := of_decide_eq_true (Bool.and_eq_true_iff.1 h).2
  -- the letters come after the digits
  exact dif_neg fun hletter => absurd (UInt32.le_trans hletter.1 hgreatest) (by decide)

/-- A text that begins with a digit or a point names no special value. -/
lemma readUnsigned?_of_scan {c : Char} {cs : List Char} {n : Numeral}
    (h : Numeral.scan (c :: cs) = some (n, [])) :
    readUnsigned? (c :: cs) = some n.value.toFloat := by
  have hletters : c.toLower ≠ 'i' ∧ c.toLower ≠ 'n' := by
    rcases Numeral.isDigit_or_point_of_scan h with hdigit | rfl
    · rw [toLower_of_isDigit hdigit]
      constructor <;> rintro rfl <;> exact absurd hdigit (by decide)
    · decide
  simp [readUnsigned?, h, hletters]

/-- Read as a number on its own, a numeral gives the double nearest to what it writes. -/
theorem readNumber_text {n : Numeral} (hn : n.Proper) :
    readNumber (String.ofList n.text) = .ok n.value.toFloat := by
  have hscan := Numeral.scan_text hn
  obtain ⟨c, cs, htext⟩ := List.exists_cons_of_ne_nil (Numeral.text_ne_nil_of_scan hscan)
  rw [htext] at hscan ⊢
  have hminus : c ≠ '-' := by
    rintro rfl
    exact absurd (Numeral.isDigit_or_point_of_scan hscan) (by decide)
  have hplus : c ≠ '+' := by
    rintro rfl
    exact absurd (Numeral.isDigit_or_point_of_scan hscan) (by decide)
  simp [readNumber, String.toList_ofList, hminus, hplus, readUnsigned?_of_scan hscan, withSign]

end Formulary
