import Formulary.Number.Numeral
import Mathlib.Data.List.TakeWhile
import Mathlib.Tactic.Common
/-!
# Numerals before other text

What follows a numeral does not change how it is read, as long as it does not begin with a character
that numerals are made of (`Numeral.scan_append`). The same for runs of characters of one kind comes
first.
-/

namespace Formulary

/-! ## Runs of characters -/

/-- A text does not begin with a character of a kind. -/
def Stops (p : Char → Bool) (cs : List Char) : Prop :=
  ∀ c ∈ cs.head?, p c = false

section
variable {p : Char → Bool} {cs rest : List Char}

lemma Stops.nil : Stops p [] := by
  intro c hc
  exact absurd hc (by simp)

lemma stops_cons {c : Char} : Stops p (c :: cs) ↔ p c = false := by
  simp [Stops]

lemma Stops.mono {q : Char → Bool} (hpq : ∀ c, q c = true → p c = true) (h : Stops p cs) :
    Stops q cs := by
  intro c hc
  by_contra hq
  have := hpq c (by simpa using hq)
  rw [h c hc] at this
  exact absurd this (by simp)

lemma Stops.takeWhile_eq_nil (h : Stops p cs) : cs.takeWhile p = [] := by
  cases cs with
  | nil => rfl
  | cons c cs => rw [List.takeWhile_cons_of_neg (by simp [stops_cons.1 h])]

lemma takeWhile_append_of_stops (h : (∀ c ∈ cs, p c = true) → Stops p rest) :
    (cs ++ rest).takeWhile p = cs.takeWhile p := by
  induction cs with
  | nil => exact (h (by simp)).takeWhile_eq_nil
  | cons c cs ih =>
    by_cases hc : p c = true
    · rw [List.cons_append, List.takeWhile_cons_of_pos hc, List.takeWhile_cons_of_pos hc, ih]
      intro hcs
      refine h fun d hd => ?_
      rcases List.mem_cons.1 hd with rfl | hd
      · exact hc
      · exact hcs d hd
    · rw [List.cons_append, List.takeWhile_cons_of_neg hc, List.takeWhile_cons_of_neg hc]

lemma dropWhile_append_of_stops (h : (∀ c ∈ cs, p c = true) → Stops p rest) :
    (cs ++ rest).dropWhile p = cs.dropWhile p ++ rest := by
  have htake := takeWhile_append_of_stops h
  have happ := List.takeWhile_append_dropWhile (p := p) (l := cs ++ rest)
  have hcs := List.takeWhile_append_dropWhile (p := p) (l := cs)
  rw [htake] at happ
  nth_rewrite 3 [← hcs] at happ
  rw [List.append_assoc] at happ
  exact List.append_cancel_left happ

lemma takeWhile_run (hcs : ∀ c ∈ cs, p c = true) (h : Stops p rest) :
    (cs ++ rest).takeWhile p = cs := by
  rw [takeWhile_append_of_stops fun _ => h, List.takeWhile_eq_self_iff.2 hcs]

lemma dropWhile_run (hcs : ∀ c ∈ cs, p c = true) (h : Stops p rest) :
    (cs ++ rest).dropWhile p = rest := by
  rw [dropWhile_append_of_stops fun _ => h, List.dropWhile_eq_nil_iff.2 hcs, List.nil_append]

/-- A run goes as far as it can. -/
lemma stops_dropWhile (p : Char → Bool) (cs : List Char) : Stops p (cs.dropWhile p) := by
  intro c hc
  have hhead := List.head?_dropWhile_not p cs
  rw [Option.mem_def] at hc
  rwa [hc] at hhead

end

/-! ## Numerals -/

namespace Numeral

/-- The characters that numerals are made of. -/
def isNumeralChar (c : Char) : Bool :=
  c.isDigit || c = '.' || c = 'e' || c = 'E' || c = '+' || c = '-'

variable {cs rest : List Char}

lemma stops_isDigit (h : Stops isNumeralChar rest) : Stops Char.isDigit rest := by
  refine h.mono fun c hc => ?_
  simp [isNumeralChar, hc]

lemma scanExponentDigits_append (h : Stops isNumeralChar rest) (letter : Char)
    (sign : Option Char) :
    scanExponentDigits letter sign (cs ++ rest) =
      (scanExponentDigits letter sign cs).map (Prod.map id (· ++ rest)) := by
  have hdigit := stops_isDigit h
  unfold scanExponentDigits
  rw [takeWhile_append_of_stops fun _ => hdigit, dropWhile_append_of_stops fun _ => hdigit]
  cases cs.takeWhile Char.isDigit with
  | nil => rfl
  | cons d ds => rfl

lemma scanExponent_append (h : Stops isNumeralChar rest) :
    scanExponent (cs ++ rest) = (scanExponent cs).map (Prod.map id (· ++ rest)) := by
  -- an exponent looks at up to two characters before its digits; each may be the first of `rest`
  cases cs with
  | nil =>
    cases rest with
    | nil => rfl
    | cons c rest =>
      have hc := stops_cons.1 h
      have : ¬ (c = 'e' ∨ c = 'E') := by
        rintro (rfl | rfl) <;> exact absurd hc (by decide)
      simp [scanExponent, this]
  | cons letter cs =>
    by_cases hletter : (letter = 'e' || letter = 'E') = true
    · cases cs with
      | nil =>
        have hnone : scanExponentDigits letter none rest = none := by
          simp [scanExponentDigits, (stops_isDigit h).takeWhile_eq_nil]
        cases rest with
        | nil => simp [scanExponent, scanExponentDigits]
        | cons c rest =>
          have hc := stops_cons.1 h
          have hplus : c ≠ '+' := by rintro rfl; exact absurd hc (by decide)
          have hminus : c ≠ '-' := by rintro rfl; exact absurd hc (by decide)
          simp only [List.singleton_append, scanExponent, hletter, if_true]
          split
          · simp_all
          · simp_all
          · rw [hnone]
            rfl
      | cons c cs =>
        simp only [List.cons_append, scanExponent, hletter, if_true]
        split
        · rename_i more hmore
          obtain ⟨rfl, rfl⟩ : c = '+' ∧ cs ++ rest = more := by simpa using hmore
          exact scanExponentDigits_append h letter (some '+')
        · rename_i more hmore
          obtain ⟨rfl, rfl⟩ : c = '-' ∧ cs ++ rest = more := by simpa using hmore
          exact scanExponentDigits_append h letter (some '-')
        · rename_i hplus hminus
          have hplus : c ≠ '+' := fun hc => hplus (cs ++ rest) (by rw [hc])
          have hminus : c ≠ '-' := fun hc => hminus (cs ++ rest) (by rw [hc])
          rw [← List.cons_append, scanExponentDigits_append h letter none]
          split
          · simp_all
          · simp_all
          · rfl
    · simp [scanExponent, hletter]

lemma withExponent_append (h : Stops isNumeralChar rest) (whole : List Char)
    (fraction : Option (List Char)) :
    withExponent whole fraction (cs ++ rest) =
      Prod.map id (· ++ rest) (withExponent whole fraction cs) := by
  unfold withExponent
  rw [scanExponent_append h]
  cases scanExponent cs with
  | none => rfl
  | some r => rfl

lemma scan_of_point {more : List Char} (h : cs.dropWhile Char.isDigit = '.' :: more) :
    scan cs =
      if cs.takeWhile Char.isDigit = [] ∧ more.takeWhile Char.isDigit = [] then none
      else some (withExponent (cs.takeWhile Char.isDigit) (some (more.takeWhile Char.isDigit))
        (more.dropWhile Char.isDigit)) := by
  simp only [scan, h, Bool.and_eq_true, decide_eq_true_eq]

lemma scan_of_no_point (h : ∀ more, cs.dropWhile Char.isDigit ≠ '.' :: more) :
    scan cs =
      if cs.takeWhile Char.isDigit = [] then none
      else some (withExponent (cs.takeWhile Char.isDigit) none (cs.dropWhile Char.isDigit)) := by
  rw [scan]
  split
  · rename_i more hmore
    exact absurd hmore (h more)
  · rfl

/-- A numeral begins with a digit or a point. -/
lemma isDigit_or_point_of_scan {c : Char} {n : Numeral} (h : scan (c :: cs) = some (n, rest)) :
    c.isDigit = true ∨ c = '.' := by
  by_contra hc
  obtain ⟨hdigit, hpoint⟩ := not_or.1 hc
  have htake : (c :: cs).takeWhile Char.isDigit = [] := by simp [hdigit]
  have hdrop : (c :: cs).dropWhile Char.isDigit = c :: cs := by simp [hdigit]
  rw [scan_of_no_point, if_pos htake] at h
  · exact absurd h (by simp)
  · intro more hmore
    rw [hdrop] at hmore
    exact hpoint (List.cons.inj hmore).1

lemma scan_eq_none {c : Char} (hdigit : c.isDigit = false) (hpoint : c ≠ '.') :
    scan (c :: cs) = none := by
  refine Option.eq_none_iff_forall_ne_some.2 fun r hr => ?_
  rcases isDigit_or_point_of_scan hr with h | h
  · exact absurd (hdigit.symm.trans h) (by simp)
  · exact hpoint h

/-- A numeral is read alike whatever follows it that numerals are not made of. -/
theorem scan_append (h : Stops isNumeralChar rest) :
    scan (cs ++ rest) = (scan cs).map (Prod.map id (· ++ rest)) := by
  have hdigit := stops_isDigit h
  have htake : (cs ++ rest).takeWhile Char.isDigit = cs.takeWhile Char.isDigit :=
    takeWhile_append_of_stops fun _ => hdigit
  have hdrop : (cs ++ rest).dropWhile Char.isDigit = cs.dropWhile Char.isDigit ++ rest :=
    dropWhile_append_of_stops fun _ => hdigit
  by_cases hpoint : ∃ more, cs.dropWhile Char.isDigit = '.' :: more
  · obtain ⟨more, hmore⟩ := hpoint
    rw [hmore, List.cons_append] at hdrop
    rw [scan_of_point hmore, scan_of_point hdrop, htake, takeWhile_append_of_stops fun _ => hdigit,
      dropWhile_append_of_stops fun _ => hdigit, withExponent_append h]
    split <;> rfl
  · have hpoint : ∀ more, cs.dropWhile Char.isDigit ≠ '.' :: more := not_exists.1 hpoint
    have hpoint' : ∀ more, (cs ++ rest).dropWhile Char.isDigit ≠ '.' :: more := by
      intro more hmore
      rw [hdrop] at hmore
      cases hd : cs.dropWhile Char.isDigit with
      | nil =>
        -- the numeral can end here, and what follows begins with no point
        rw [hd, List.nil_append] at hmore
        rw [hmore, stops_cons] at h
        exact absurd h (by decide)
      | cons c tail =>
        rw [hd, List.cons_append] at hmore
        obtain ⟨rfl, -⟩ := List.cons.inj hmore
        exact hpoint tail hd
    rw [scan_of_no_point hpoint, scan_of_no_point hpoint', htake, hdrop, withExponent_append h]
    split <;> rfl

/-! ## The characters of a numeral -/

lemma isNumeralChar_of_mem_takeWhile (cs : List Char) :
    ∀ c ∈ cs.takeWhile Char.isDigit, isNumeralChar c = true := by
  intro c hc
  simp [isNumeralChar, List.mem_takeWhile_imp hc]

lemma isNumeralChar_of_mem_exponentDigits {letter : Char} {sign : Option Char} {x : Exponent}
    (hletter : isNumeralChar letter = true) (hsign : ∀ c ∈ sign, isNumeralChar c = true)
    (h : scanExponentDigits letter sign cs = some (x, rest)) :
    ∀ c ∈ x.text, isNumeralChar c = true := by
  rw [scanExponentDigits] at h
  split at h
  · exact absurd h (by simp)
  · rename_i d ds hd
    obtain ⟨rfl, -⟩ : _ ∧ _ := by simpa using h
    intro c hc
    simp only [Exponent.text, ← hd, List.cons_append, List.mem_cons, List.mem_append] at hc
    rcases hc with rfl | hc | hc
    · exact hletter
    · exact hsign c (by simpa using hc)
    · exact isNumeralChar_of_mem_takeWhile cs c hc

lemma isNumeralChar_of_mem_exponent {x : Exponent} (h : scanExponent cs = some (x, rest)) :
    ∀ c ∈ x.text, isNumeralChar c = true := by
  unfold scanExponent at h
  split at h
  · exact absurd h (by simp)
  · rename_i letter more
    split at h
    · rename_i hletter
      have hletter : isNumeralChar letter = true := by
        rcases (by simpa using hletter : letter = 'e' ∨ letter = 'E') with rfl | rfl <;> decide
      split at h
      · exact isNumeralChar_of_mem_exponentDigits hletter (by simp [isNumeralChar]) h
      · exact isNumeralChar_of_mem_exponentDigits hletter (by simp [isNumeralChar]) h
      · exact isNumeralChar_of_mem_exponentDigits hletter (by simp) h
    · exact absurd h (by simp)

lemma isNumeralChar_of_mem_withExponent {whole : List Char} {fraction : Option (List Char)}
    (hwhole : ∀ c ∈ whole, isNumeralChar c = true)
    (hfraction : ∀ c ∈ fraction.getD [], isNumeralChar c = true) :
    ∀ c ∈ (withExponent whole fraction cs).1.text, isNumeralChar c = true := by
  have hpoint : ∀ c ∈ fraction.elim [] ('.' :: ·), isNumeralChar c = true := by
    intro c hc
    cases fraction with
    | none => exact absurd hc (by simp)
    | some places =>
      rcases List.mem_cons.1 hc with rfl | hc
      · decide
      · exact hfraction c hc
  intro c hc
  rw [withExponent] at hc
  split at hc
  · rename_i x more hx
    simp only [text, List.mem_append, Option.elim_some] at hc
    rcases hc with (hc | hc) | hc
    · exact hwhole c hc
    · exact hpoint c hc
    · exact isNumeralChar_of_mem_exponent hx c hc
  · simp only [text, List.mem_append, Option.elim_none, List.not_mem_nil, or_false] at hc
    rcases hc with hc | hc
    · exact hwhole c hc
    · exact hpoint c hc

theorem isNumeralChar_of_mem_scan {n : Numeral} (h : scan cs = some (n, rest)) :
    ∀ c ∈ n.text, isNumeralChar c = true := by
  have hwhole := isNumeralChar_of_mem_takeWhile cs
  unfold scan at h
  split at h
  · rename_i more hd
    dsimp only at h
    split at h
    · exact absurd h (by simp)
    · obtain rfl := congrArg Prod.fst (Option.some.inj h)
      exact isNumeralChar_of_mem_withExponent hwhole (isNumeralChar_of_mem_takeWhile more)
  · dsimp only at h
    split at h
    · exact absurd h (by simp)
    · obtain rfl := congrArg Prod.fst (Option.some.inj h)
      exact isNumeralChar_of_mem_withExponent hwhole (by simp)

end Numeral
end Formulary
