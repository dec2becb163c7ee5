import Formulary.Proofs.Text.Names
import Formulary.Text.Blank
import Mathlib.Data.List.DropRight
/-!
# Texts without blanks at their ends

A text is trimmed if its first and its last character are not blank; trimming leaves exactly these texts
as they are (`trim_eq_self_iff`), and it takes away all that is put around them (`trim_ofList`).
-/

namespace Formulary

/-- The characters at the two ends are not blank. -/
def Trimmed (cs : List Char) : Prop :=
  (∀ c ∈ cs.head?, isBlank c = false) ∧ ∀ c ∈ cs.getLast?, isBlank c = false

lemma trim_eq (s : String) :
    trim s = String.ofList ((s.toList.dropWhile isBlank).rdropWhile isBlank) := rfl

lemma Trimmed.dropWhile_eq_self {cs : List Char} (h : Trimmed cs) : cs.dropWhile isBlank = cs := by
  cases cs with
  | nil => rfl
  | cons c cs => rw [List.dropWhile_cons_of_neg (by simp [h.1 c rfl])]

lemma Trimmed.rdropWhile_eq_self {cs : List Char} (h : Trimmed cs) : cs.rdropWhile isBlank = cs := by
  refine List.rdropWhile_eq_self_iff.2 fun hne => ?_
  rw [h.2 _ (List.getLast?_eq_some_getLast hne)]
  simp

/-- What trimming leaves as it is. -/
theorem trim_eq_self_iff {s : String} : trim s = s ↔ Trimmed s.toList := by
  constructor
  · intro h
    have hcut : (s.toList.dropWhile isBlank).rdropWhile isBlank = s.toList := by
      rw [← String.ofList_inj, ← trim_eq, h, String.ofList_toList]
    -- nothing is cut from the front, since what is left is not shorter
    have hlength : s.toList.length ≤ (s.toList.dropWhile isBlank).length := by
      conv_lhs => rw [← hcut]
      exact (List.rdropWhile_prefix isBlank _).length_le
    have hfront : s.toList.dropWhile isBlank = s.toList :=
      (List.dropWhile_suffix isBlank).eq_of_length_le hlength
    rw [hfront] at hcut
    refine ⟨fun c hc => ?_, fun c hc => ?_⟩
    · have hhead := List.head?_dropWhile_not isBlank s.toList
      rw [hfront, hc] at hhead
      exact hhead
    · have hne : s.toList ≠ [] := by
        rintro hnil
        rw [hnil] at hc
        exact absurd hc (by simp)
      rw [List.getLast?_eq_some_getLast hne] at hc
      obtain rfl := Option.some.inj hc
      simpa using List.rdropWhile_eq_self_iff.1 hcut hne
  · intro h
    rw [trim_eq, h.dropWhile_eq_self, h.rdropWhile_eq_self, String.ofList_toList]

/-- Trimming takes away the blanks around a trimmed text. -/
theorem trim_ofList (before : List Char) {core : List Char} (after : List Char) (hbefore : ∀ c ∈ before, isBlank c = true)
    (hcore : Trimmed core) (hne : core ≠ []) (hafter : ∀ c ∈ after, isBlank c = true) :
    trim (String.ofList (before ++ core ++ after)) = String.ofList core := by
  obtain ⟨c, cs, rfl⟩ := List.exists_cons_of_ne_nil hne
  have hfront : (before ++ (c :: cs) ++ after).dropWhile isBlank = c :: cs ++ after := by
    rw [List.append_assoc, List.dropWhile_append_of_pos hbefore, List.cons_append,
      List.dropWhile_cons_of_neg (by simp [hcore.1 c rfl])]
  have hback : (c :: cs ++ after).rdropWhile isBlank = (c :: cs).rdropWhile isBlank := by
    rw [List.rdropWhile, List.reverse_append, List.dropWhile_append_of_pos]
    · rfl
    · simpa using hafter
  rw [trim_eq, String.toList_ofList, hfront, hback, hcore.rdropWhile_eq_self]

/-- A trimmed text is not blank, unless it is empty. -/
lemma isBlankText_eq_false_of_trimmed {s : String} (h : Trimmed s.toList) (hne : s ≠ "") :
    isBlankText s = false := by
  have hchars : s.toList ≠ [] := fun hnil => hne (String.toList_eq_nil_iff.1 hnil)
  obtain ⟨c, cs, hcs⟩ := List.exists_cons_of_ne_nil hchars
  rw [hcs] at h
  rw [isBlankText, hcs, List.all_cons, h.1 c rfl, Bool.false_and]

/-! ## Names -/

/-- Characters that show are not blank. -/
lemma isBlank_eq_false_of_val {c : Char} (hleast : 33 ≤ c.val) (hgreatest : c.val ≤ 126) :
    isBlank c = false := by
  have hne : ∀ d : Char, d.val < 33 ∨ 126 < d.val → c ≠ d := by
    rintro d (hd | hd) rfl
    · exact absurd hleast (by simpa using hd)
    · exact absurd hgreatest (by simpa using hd)
  have hle : ¬ '\u2000' ≤ c := fun hle =>
    absurd (UInt32.le_trans (Char.le_def.1 hle) hgreatest) (by decide)
  simp [isBlank, Char.isWhitespace, hne, hle]

lemma isBlank_eq_false_of_isNameChar {c : Char} (h : isNameChar c = true) : isBlank c = false := by
  obtain ⟨hleast, hgreatest⟩ := val_of_isNameChar h
  exact isBlank_eq_false_of_val (UInt32.le_trans (by decide) hleast)
    (UInt32.le_trans hgreatest (by decide))

end Formulary
