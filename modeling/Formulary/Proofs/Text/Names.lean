import Formulary.Text.Name
import Mathlib.Data.List.Basic
/-!
# Names in order

Sorted names are in the order of their characters, each once (`pairwise_sortedNames`). A character of a
name takes one byte, so they are in the order of their bytes, too (`ascending_sortedNames`).
-/

namespace Formulary

/-! ## The characters of names -/

lemma isNameChar_of_isNameStart {c : Char} (h : isNameStart c = true) : isNameChar c = true := by
  rcases (by simpa [isNameStart] using h : c.isAlpha = true ∨ c = '_') with h | h <;>
    simp [isNameChar, Char.isAlphanum, h]

lemma val_of_isNameChar {c : Char} (h : isNameChar c = true) :
    '0'.val ≤ c.val ∧ c.val ≤ 'z'.val := by
  have hranges : ((('A'.val ≤ c.val ∧ c.val ≤ 'Z'.val) ∨ ('a'.val ≤ c.val ∧ c.val ≤ 'z'.val)) ∨
      ('0'.val ≤ c.val ∧ c.val ≤ '9'.val)) ∨ c = '_' := by
    have hdef : isNameChar c = (decide ('A'.val ≤ c.val ∧ c.val ≤ 'Z'.val) ||
      (decide ('a'.val ≤ c.val) && decide (c.val ≤ 'z'.val)) ||
      (decide ('0'.val ≤ c.val) && decide (c.val ≤ '9'.val)) || decide (c = '_')) := rfl
    simpa only [hdef, Bool.or_eq_true, Bool.and_eq_true, decide_eq_true_eq] using h
  rcases hranges with ((⟨hleast, hgreatest⟩ | ⟨hleast, hgreatest⟩) | ⟨hleast, hgreatest⟩) | rfl
  · exact ⟨UInt32.le_trans (by decide) hleast, UInt32.le_trans hgreatest (by decide)⟩
  · exact ⟨UInt32.le_trans (by decide) hleast, hgreatest⟩
  · exact ⟨hleast, UInt32.le_trans hgreatest (by decide)⟩
  · decide

lemma isNameChar_of_mem_isNameText {name : List Char} (h : isNameText name = true) :
    ∀ c ∈ name, isNameChar c = true := by
  cases name with
  | nil => exact absurd h (by simp [isNameText])
  | cons c cs =>
    obtain ⟨hc, hcs⟩ : isNameStart c = true ∧ ∀ d ∈ cs, isNameChar d = true := by
      simpa [isNameText] using h
    intro d hd
    rcases List.mem_cons.1 hd with rfl | hd
    · exact isNameChar_of_isNameStart hc
    · exact hcs d hd

/-! ## Order of characters -/

lemma pairwise_insertName {name : String} {ns : List String} (h : ns.Pairwise (· < ·)) :
    (insertName name ns).Pairwise (· < ·) := by
  induction ns with
  | nil => simp [insertName]
  | cons n ns ih =>
    obtain ⟨hn, hns⟩ := List.pairwise_cons.1 h
    rw [insertName]
    split
    · rename_i hlt
      refine List.pairwise_cons.2 ⟨fun m hm => ?_, h⟩
      rcases List.mem_cons.1 hm with rfl | hm
      · exact hlt
      · exact String.lt_trans hlt (hn m hm)
    · rename_i hnot
      split
      · exact h
      · rename_i hne
        -- the name is neither below the first one nor equal to it
        have hlt : n < name := by
          by_contra hle
          exact hne (String.le_antisymm (String.not_lt.1 hle) (String.not_lt.1 hnot))
        refine List.pairwise_cons.2 ⟨fun m hm => ?_, ih hns⟩
        rcases mem_insertName.1 hm with rfl | hm
        · exact hlt
        · exact hn m hm

theorem pairwise_sortedNames (names : List String) : (sortedNames names).Pairwise (· < ·) := by
  induction names with
  | nil => exact List.Pairwise.nil
  | cons name names ih => exact pairwise_insertName ih

lemma nodup_sortedNames (names : List String) : (sortedNames names).Nodup := by
  refine (pairwise_sortedNames names).imp ?_
  rintro m n h rfl
  exact String.lt_irrefl m h

/-! ## Order of bytes -/

/-- The bytes of a text in UTF-8. -/
def bytesOf (s : String) : List UInt8 :=
  s.toUTF8.data.toList

/-- Each text of a list comes before the next ones, byte by byte. -/
def Ascending (texts : List String) : Prop :=
  texts.Pairwise fun s t => List.Lex (· < ·) (bytesOf s) (bytesOf t)

lemma bytesOf_eq_flatMap (s : String) : bytesOf s = s.toList.flatMap String.utf8EncodeChar := by
  rw [bytesOf, String.toUTF8_eq_toByteArray]
  nth_rewrite 1 [← String.ofList_toList (s := s)]
  rw [String.toByteArray_ofList, List.utf8Encode, List.toList_data_toByteArray]

lemma toNat_le_of_isNameChar {c : Char} (h : isNameChar c = true) : c.toNat ≤ 127 :=
  Nat.le_trans (UInt32.le_iff_toNat_le.1 (val_of_isNameChar h).2) (by decide)

/-- The byte of a character of a name. -/
def byteOf (c : Char) : UInt8 :=
  UInt8.ofNat c.toNat

lemma bytesOf_of_isName {s : String} (h : isName s = true) : bytesOf s = s.toList.map byteOf := by
  have hbyte : ∀ c ∈ s.toList, String.utf8EncodeChar c = [byteOf c] := by
    intro c hc
    exact if_pos (toNat_le_of_isNameChar (isNameChar_of_mem_isNameText h c hc))
  rw [bytesOf_eq_flatMap, List.flatMap_congr hbyte, List.map_eq_flatMap]

lemma byteOf_lt {c d : Char} (hd : isNameChar d = true) (h : c < d) : byteOf c < byteOf d := by
  have hval := toNat_le_of_isNameChar hd
  have hlt : c.toNat < d.toNat := UInt32.lt_iff_toNat_lt.1 h
  rw [UInt8.lt_iff_toNat_lt, byteOf, byteOf, UInt8.toNat_ofNat', UInt8.toNat_ofNat',
    Nat.mod_eq_of_lt (by omega), Nat.mod_eq_of_lt (by omega)]
  exact hlt

lemma lex_bytesOf {s t : String} (hs : isName s = true) (ht : isName t = true) (h : s < t) :
    List.Lex (· < ·) (bytesOf s) (bytesOf t) := by
  rw [bytesOf_of_isName hs, bytesOf_of_isName ht]
  have hchars := isNameChar_of_mem_isNameText ht
  have hlex : List.Lex (· < ·) s.toList t.toList := h
  generalize s.toList = cs at hlex ⊢
  generalize t.toList = ds at hlex hchars ⊢
  induction hlex with
  | nil => exact .nil
  | cons _ ih => exact .cons (ih fun d hd => hchars d (List.mem_cons_of_mem _ hd))
  | rel hlt => exact .rel (byteOf_lt (hchars _ List.mem_cons_self) hlt)

theorem ascending_sortedNames {names : List String} (h : ∀ name ∈ names, isName name = true) :
    Ascending (sortedNames names) := by
  refine (pairwise_sortedNames names).imp_of_mem fun hs ht hlt => ?_
  exact lex_bytesOf (h _ (mem_sortedNames.1 hs)) (h _ (mem_sortedNames.1 ht)) hlt

end Formulary
