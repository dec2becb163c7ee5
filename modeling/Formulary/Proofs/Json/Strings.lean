import Formulary.Json
import Formulary.Json.Quotation
import Formulary.Proofs.Result
/-!
# Written strings in JSON texts

A string that has been written is passed over up to its closing quote (`skimString_written`) and read as
it was (`readString_written`): each character is written in one of three forms (`stringChar_cases`), and
either reader takes a form as a whole.
-/

namespace Formulary.Json

open Result

/-! ## Characters -/

/-- The four digits of a control character. -/
lemma digits_of_control {n : Nat} (hn : n < 32) :
    (List.replicate (4 - (hexadecimal n).length) '0' ++ hexadecimal n).length = 4 ∧
      digitsIn? 16 (List.replicate (4 - (hexadecimal n).length) '0' ++ hexadecimal n) = some n := by
  revert n
  decide

lemma stringChar_of_control {c : Char} (hc : c < ' ') :
    ∃ d₁ d₂ d₃ d₄, ['\\', 'u'] ++ List.replicate (4 - (hexadecimal c.toNat).length) '0' ++
        hexadecimal c.toNat = ['\\', 'u', d₁, d₂, d₃, d₄] ∧
      digitsIn? 16 [d₁, d₂, d₃, d₄] = some c.toNat := by
  obtain ⟨hlength, hvalue⟩ := digits_of_control (n := c.toNat) hc
  rw [List.append_assoc]
  generalize List.replicate (4 - (hexadecimal c.toNat).length) '0' ++ hexadecimal c.toNat = digits
    at hlength hvalue
  match digits, hlength with
  | [d₁, d₂, d₃, d₄], _ => exact ⟨d₁, d₂, d₃, d₄, rfl, hvalue⟩

/-- A character stands for itself, after a backslash, or as the number of its unit. -/
lemma stringChar_cases (c : Char) :
    (stringChar c = [c] ∧ c ≠ '\x22' ∧ c ≠ '\\' ∧ ¬ c < ' ') ∨
    (∃ e, stringChar c = ['\\', e] ∧ escapedChar? e = some c) ∨
    ∃ d₁ d₂ d₃ d₄, stringChar c = ['\\', 'u', d₁, d₂, d₃, d₄] ∧
      digitsIn? 16 [d₁, d₂, d₃, d₄] = some c.toNat ∧ c < ' ' := by
  unfold stringChar
  split_ifs with hself hb hf hn hr ht hcontrol
  · refine .inr (.inl ⟨c, rfl, ?_⟩)
    rw [escapedChar?, if_pos (by simp_all)]
  · exact .inr (.inl ⟨_, rfl, hb ▸ rfl⟩)
  · exact .inr (.inl ⟨_, rfl, hf ▸ rfl⟩)
  · exact .inr (.inl ⟨_, rfl, hn ▸ rfl⟩)
  · exact .inr (.inl ⟨_, rfl, hr ▸ rfl⟩)
  · exact .inr (.inl ⟨_, rfl, ht ▸ rfl⟩)
  · obtain ⟨d₁, d₂, d₃, d₄, hdigits, hvalue⟩ := stringChar_of_control hcontrol
    exact .inr (.inr ⟨d₁, d₂, d₃, d₄, hdigits, hvalue, hcontrol⟩)
  · simp only [Bool.or_eq_true, decide_eq_true_eq, not_or] at hself
    exact .inl ⟨rfl, hself.1, hself.2, hcontrol⟩

lemma ne_of_escapedChar? {e c : Char} (h : escapedChar? e = some c) : e ≠ 'u' := by
  rintro rfl
  rw [show escapedChar? 'u' = none from rfl] at h
  exact absurd h (by simp)

/-! ## Passing a string over -/

/-- A character that has been written is passed over. -/
lemma skimString_stringChar (c : Char) (position : Nat) (rest : List Char) :
    ∃ position', skimString position (stringChar c ++ rest) = skimString position' rest := by
  rcases stringChar_cases c with ⟨htext, hquote, hslash, hcontrol⟩ | ⟨e, htext, he⟩ |
    ⟨d₁, d₂, d₃, d₄, htext, hvalue, -⟩
  · refine ⟨position + c.utf8Size, ?_⟩
    rw [htext, List.singleton_append, skimString, if_neg hquote, if_neg hslash, if_neg hcontrol]
    all_goals (intros; contradiction)
  · have hu := ne_of_escapedChar? he
    refine ⟨position + 2, ?_⟩
    rw [htext, List.cons_append, List.singleton_append, skimString, he]
    · rfl
    all_goals (intros; contradiction)
  · refine ⟨position + 6, ?_⟩
    rw [htext]
    simp only [List.cons_append, List.nil_append]
    rw [skimString, hvalue]

/-- A string that has been written is passed over up to its closing quote. -/
theorem skimString_written (cs : List Char) (position : Nat) (rest : List Char) :
    ∃ stop, skimString position (cs.flatMap stringChar ++ '\x22' :: rest) = .ok (stop, rest) := by
  induction cs generalizing position with
  | nil =>
    refine ⟨position + 1, ?_⟩
    rw [List.flatMap_nil, List.nil_append, skimString, if_pos rfl]
    all_goals simp
  | cons c cs ih =>
    rw [List.flatMap_cons, List.append_assoc]
    obtain ⟨position', hc⟩ := skimString_stringChar c position (cs.flatMap stringChar ++ '\x22' :: rest)
    rw [hc]
    exact ih position'

/-! ## Reading a string -/

lemma takeUnit_digits {d₁ d₂ d₃ d₄ : Char} {unit : Nat} (h : digitsIn? 16 [d₁, d₂, d₃, d₄] = some unit)
    (position : Nat) (rest : List Char) :
    takeUnit position (d₁ :: d₂ :: d₃ :: d₄ :: rest) = .ok (unit, rest) := by
  have htake : (d₁ :: d₂ :: d₃ :: d₄ :: rest).take 4 = [d₁, d₂, d₃, d₄] := rfl
  rw [takeUnit, htake, h]
  exact if_pos (by simp)

/-- A control character is no half of a surrogate pair. -/
lemma takeCodePoint_control {c d₁ d₂ d₃ d₄ : Char}
    (h : digitsIn? 16 [d₁, d₂, d₃, d₄] = some c.toNat) (hc : c < ' ') (position : Nat)
    (rest : List Char) :
    takeCodePoint position (d₁ :: d₂ :: d₃ :: d₄ :: rest) = .ok (c, position + 4, rest) := by
  have hlt : c.toNat < 32 := hc
  have htrailing : ¬ (0xDC00 ≤ c.toNat && c.toNat < 0xE000) = true := by simp; omega
  have hleading : ¬ (0xD800 ≤ c.toNat && c.toNat < 0xDC00) = true := by simp; omega
  rw [takeCodePoint, takeUnit_digits h, ok_bind]
  dsimp only
  rw [if_neg htrailing, if_neg hleading, Char.ofNat_toNat]
  rfl

/-- A character that has been written is read in one step. -/
lemma readChars_stringChar (c : Char) (fuel position : Nat) (before rest : List Char) :
    ∃ position', readChars (fuel + 1) position before (stringChar c ++ rest) =
      readChars fuel position' (c :: before) rest := by
  rcases stringChar_cases c with ⟨htext, hquote, hslash, hcontrol⟩ | ⟨e, htext, he⟩ |
    ⟨d₁, d₂, d₃, d₄, htext, hvalue, hc⟩
  · refine ⟨position + c.utf8Size, ?_⟩
    rw [htext, List.singleton_append, readChars, if_neg hcontrol]
    all_goals (intros; contradiction)
  · have hu := ne_of_escapedChar? he
    refine ⟨position + 2, ?_⟩
    rw [htext, List.cons_append, List.singleton_append, readChars, takeEscape, he]
    · rfl
    all_goals (intros; contradiction)
  · refine ⟨position + 6, ?_⟩
    rw [htext]
    simp only [List.cons_append, List.nil_append]
    rw [readChars, takeEscape, takeCodePoint_control hvalue hc]
    rfl

lemma stringChar_ne_nil (c : Char) : stringChar c ≠ [] := by
  rcases stringChar_cases c with ⟨htext, -⟩ | ⟨e, htext, -⟩ | ⟨d₁, d₂, d₃, d₄, htext, -⟩ <;> simp [htext]

/-- Each character that has been written needs one unit of fuel, and the closing quote another. -/
lemma readChars_written (cs : List Char) {fuel : Nat} (hfuel : cs.length < fuel) (position : Nat)
    (before rest : List Char) :
    readChars fuel position before (cs.flatMap stringChar ++ '\x22' :: rest) =
      .ok (before.reverse ++ cs) := by
  induction cs generalizing fuel position before with
  | nil =>
    rw [List.flatMap_nil, List.nil_append, List.append_nil]
    cases fuel with
    | zero => exact absurd hfuel (by simp)
    | succ fuel =>
      rw [readChars]
      exact Nat.succ_ne_zero fuel
  | cons c cs ih =>
    cases fuel with
    | zero => exact absurd hfuel (by simp)
    | succ fuel =>
      rw [List.flatMap_cons, List.append_assoc]
      obtain ⟨position', hc⟩ := readChars_stringChar c fuel position before
        (cs.flatMap stringChar ++ '\x22' :: rest)
      rw [hc, ih (Nat.lt_of_succ_lt_succ hfuel), List.reverse_cons, List.append_assoc,
        List.singleton_append]

lemma length_le_length_flatMap (cs : List Char) : cs.length ≤ (cs.flatMap stringChar).length := by
  induction cs with
  | nil => simp
  | cons c cs ih =>
    have hc := List.length_pos_iff.2 (stringChar_ne_nil c)
    rw [List.flatMap_cons, List.length_append, List.length_cons]
    omega

/-- A string that has been written is read as it was. -/
theorem readString_written (s : String) (position : Nat) (rest : List Char) :
    readString position (s.toList.flatMap stringChar ++ '\x22' :: rest) = .ok s := by
  have hfuel : s.toList.length < (s.toList.flatMap stringChar ++ '\x22' :: rest).length := by
    have hle := length_le_length_flatMap s.toList
    rw [List.length_append, List.length_cons]
    omega
  rw [readString, readChars_written s.toList hfuel]
  exact congrArg Except.ok (String.ofList_toList)

end Formulary.Json
