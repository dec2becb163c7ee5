import Formulary.Proofs.Template.Pieces
import Formulary.Proofs.Text.Names
/-!
# Where references stand

A source is cut from left to right, and a reference that has been found is passed over as a whole. No
other reference is missed by that, since two references never overlap (`standsAt_reference_append`). So
the variables of a source are the names of the references that are written anywhere in it
(`variablesOf_exact`).
-/

namespace Formulary

/-- A reference to the name is written at a position of a text. -/
def StandsAt (cs name : List Char) (i : Nat) : Prop :=
  (Piece.reference name).source <+: cs.drop i

/-- A reference to the first name is written before all references to the second. -/
def ComesBefore (cs m n : List Char) : Prop :=
  ∃ i, StandsAt cs m i ∧ ∀ j, StandsAt cs n j → i < j

section
variable {cs rest m n name : List Char} {c : Char} {i j : Nat}

lemma isInfix_iff_standsAt : (Piece.reference name).source <:+: cs ↔ ∃ i, StandsAt cs name i := by
  constructor
  · rintro ⟨before, after, rfl⟩
    refine ⟨before.length, after, ?_⟩
    rw [List.append_assoc, List.drop_left]
  · rintro ⟨i, h⟩
    exact h.isInfix.trans (List.drop_suffix i cs).isInfix

lemma StandsAt.append (h : StandsAt cs name j) (pre : List Char) :
    StandsAt (pre ++ cs) name (pre.length + j) := by
  rwa [StandsAt, List.drop_length_add_append]

/-! ## References do not overlap -/

lemma scanReference_of_standsAt_zero (hname : isNameText name = true) (h : StandsAt cs name 0) :
    ∃ rest, scanReference cs = some (name, rest) := by
  obtain ⟨rest, rfl⟩ := h
  exact ⟨rest, scanReference_append hname rest⟩

lemma StandsAt.braces (h : StandsAt cs name i) : cs[i]? = some '{' ∧ cs[i + 1]? = some '{' := by
  obtain ⟨after, hdrop⟩ := h
  have hfirst : (cs.drop i)[0]? = some '{' := by rw [← hdrop]; rfl
  have hsecond : (cs.drop i)[1]? = some '{' := by rw [← hdrop]; rfl
  rw [List.getElem?_drop] at hfirst hsecond
  exact ⟨hfirst, hsecond⟩

/-- After the two braces that open a reference there is no other opening brace in it. -/
lemma getElem?_source_ne_brace (hn : isNameText n = true)
    (hi : i + 2 < (Piece.reference n).source.length) :
    ((Piece.reference n).source ++ rest)[i + 2]? ≠ some '{' := by
  have hinner : ∀ c ∈ n ++ ['}', '}'], c ≠ '{' := by
    intro c hc
    rcases List.mem_append.1 hc with hc | hc
    · rintro rfl
      exact absurd (isNameChar_of_mem_isNameText hn _ hc) (by decide)
    · rintro rfl
      exact absurd hc (by decide)
  rw [List.getElem?_append_left hi]
  intro h
  have hmem : '{' ∈ n ++ ['}', '}'] := List.mem_of_getElem? (i := i) h
  exact hinner _ hmem rfl

/-- A reference in a text that begins with a reference is that one, or it stands after it. -/
theorem standsAt_reference_append (hn : isNameText n = true) (hname : isNameText name = true)
    (h : StandsAt ((Piece.reference n).source ++ rest) name i) :
    i = 0 ∧ name = n ∨ ∃ j, i = (Piece.reference n).source.length + j ∧ StandsAt rest name j := by
  rcases Nat.eq_zero_or_pos i with rfl | hpos
  · obtain ⟨after, hscan⟩ := scanReference_of_standsAt_zero hname h
    rw [scanReference_append hn] at hscan
    exact .inl ⟨rfl, (Prod.mk.inj (Option.some.inj hscan)).1.symm⟩
  · right
    rcases Nat.lt_or_ge i (Piece.reference n).source.length with hlt | hge
    · -- it would begin inside, but the first one has no two braces there
      exfalso
      obtain ⟨hfirst, hsecond⟩ := h.braces
      obtain _ | _ | k := i
      · exact absurd hpos (by simp)
      · have hlength : 2 < (Piece.reference n).source.length := by simp [Piece.source]
        exact getElem?_source_ne_brace hn hlength hsecond
      · exact getElem?_source_ne_brace hn hlt hfirst
    · obtain ⟨j, rfl⟩ := Nat.exists_eq_add_of_le hge
      refine ⟨j, rfl, ?_⟩
      rwa [StandsAt, List.drop_length_add_append] at h

/-- Where no reference begins, all references stand after the first character. -/
lemma standsAt_cons (hscan : scanReference (c :: cs) = none) (hname : isNameText name = true)
    (h : StandsAt (c :: cs) name i) : ∃ j, i = [c].length + j ∧ StandsAt cs name j := by
  cases i with
  | zero =>
    obtain ⟨rest, hsome⟩ := scanReference_of_standsAt_zero hname h
    exact absurd (hscan.symm.trans hsome) (by simp)
  | succ j => exact ⟨j, Nat.add_comm j 1, h⟩

/-! ## The scan misses none -/

theorem reference_mem_pieces_iff :
    Piece.reference name ∈ pieces cs ↔
      isNameText name = true ∧ (Piece.reference name).source <:+: cs := by
  constructor
  · intro h
    refine ⟨isNameText_of_mem_pieces h, ?_⟩
    obtain ⟨before, after, hsplit⟩ := List.append_of_mem h
    refine ⟨before.flatMap Piece.source, after.flatMap Piece.source, ?_⟩
    rw [← source_pieces cs, hsplit, List.flatMap_append, List.flatMap_cons, List.append_assoc]
  · rintro ⟨hname, hinfix⟩
    obtain ⟨i, h⟩ := isInfix_iff_standsAt.1 hinfix
    clear hinfix
    fun_induction pieces cs generalizing i with
    | case1 => exact absurd h.braces.1 (by simp)
    | case2 c cs n rest hscan ih =>
      have hn := isNameText_of_scanReference hscan
      rw [← append_of_scanReference hscan] at h
      rcases standsAt_reference_append hn hname h with ⟨-, rfl⟩ | ⟨j, -, hj⟩
      · exact List.mem_cons_self
      · exact List.mem_cons_of_mem _ (ih j hj)
    | case3 c cs hscan ih =>
      obtain ⟨j, -, hj⟩ := standsAt_cons hscan hname h
      exact List.mem_cons_of_mem _ (ih j hj)

/-! ## The order of first references -/

lemma ComesBefore.append (h : ComesBefore cs m n) (pre : List Char)
    (hn : ∀ i, StandsAt (pre ++ cs) n i → ∃ j, i = pre.length + j ∧ StandsAt cs n j) :
    ComesBefore (pre ++ cs) m n := by
  obtain ⟨i, hm, hbefore⟩ := h
  refine ⟨pre.length + i, hm.append pre, fun k hk => ?_⟩
  obtain ⟨j, rfl, hj⟩ := hn k hk
  exact Nat.add_lt_add_left (hbefore j hj) pre.length

end

/-- It does not matter whether members are left out before or after the repetitions. -/
lemma eraseDups_filter {α : Type} [BEq α] [LawfulBEq α] (p : α → Bool) :
    (l : List α) → (l.filter p).eraseDups = l.eraseDups.filter p
  | [] => rfl
  | a :: l => by
    have ih := eraseDups_filter p (l.filter fun b => !b == a)
    rw [List.filter_filter] at ih
    rw [List.eraseDups_cons]
    by_cases ha : p a = true
    · rw [List.filter_cons_of_pos ha, List.filter_cons_of_pos ha, List.eraseDups_cons, ← ih,
        List.filter_filter]
      simp only [Bool.and_comm]
    · rw [List.filter_cons_of_neg ha, List.filter_cons_of_neg ha, ← ih]
      congr 1
      refine List.filter_congr fun b _ => ?_
      by_cases hb : b = a <;> simp [hb, ha]
termination_by l => l.length
decreasing_by exact Nat.lt_succ_of_le (List.length_filter_le _ l)

lemma isNameText_of_mem_eraseDups {cs : List Char} {name : String}
    (h : name ∈ ((pieces cs).filterMap Piece.name?).eraseDups) : isNameText name.toList = true :=
  isNameText_of_mem_pieces (mem_filterMap_name?.1 (List.mem_eraseDups.1 h))

theorem pairwise_comesBefore (cs : List Char) :
    ((pieces cs).filterMap Piece.name?).eraseDups.Pairwise
      fun m n => ComesBefore cs m.toList n.toList := by
  fun_induction pieces cs with
  | case1 => exact List.Pairwise.nil
  | case2 c cs name rest hscan ih =>
    have hname := isNameText_of_scanReference hscan
    have hcons : (Piece.reference name :: pieces rest).filterMap Piece.name? =
        String.ofList name :: (pieces rest).filterMap Piece.name? := rfl
    rw [← append_of_scanReference hscan, hcons, List.eraseDups_cons, eraseDups_filter]
    -- a name other than the first one is only in the rest
    have hrest : ∀ n ∈ (((pieces rest).filterMap Piece.name?).eraseDups).filter
        (fun b => !b == String.ofList name), ∀ i,
        StandsAt ((Piece.reference name).source ++ rest) n.toList i →
        ∃ j, i = (Piece.reference name).source.length + j ∧ StandsAt rest n.toList j := by
      intro n hn i hi
      obtain ⟨hmem, hne⟩ := List.mem_filter.1 hn
      refine (standsAt_reference_append hname (isNameText_of_mem_eraseDups hmem) hi).resolve_left ?_
      rintro ⟨-, rfl⟩
      exact absurd hne (by simp)
    refine List.pairwise_cons.2 ⟨fun n hn => ⟨0, ?_, fun i hi => ?_⟩, ?_⟩
    · rw [String.toList_ofList]
      exact List.prefix_append _ _
    · obtain ⟨j, rfl, -⟩ := hrest n hn i hi
      have hlength : 0 < (Piece.reference name).source.length := by simp [Piece.source]
      exact Nat.add_pos_left hlength j
    · exact (ih.filter _).imp_of_mem fun _ hn h => h.append _ (hrest _ hn)
  | case3 c cs hscan ih =>
    rw [List.filterMap_cons_none rfl]
    refine ih.imp_of_mem fun _ hn h => ?_
    exact h.append [c] fun i => standsAt_cons hscan (isNameText_of_mem_eraseDups hn)

/-! ## The variables of a source -/

lemma ComesBefore.irrefl {cs n : List Char} : ¬ ComesBefore cs n n := by
  rintro ⟨i, hi, hbefore⟩
  exact Nat.lt_irrefl i (hbefore i hi)

/-- **The variables of a source ascend, and they are exactly the names whose references are written
somewhere in it.** The template has the same variables, in the order of their first references. -/
theorem variablesOf_exact (source : String) :
    Ascending (variablesOf source) ∧
      (∀ n, n ∈ variablesOf source ↔
        isName n = true ∧ (Piece.reference n.toList).source <:+: source.toList) ∧
      (Template.ofSource source).variableNames.Perm (variablesOf source) ∧
      (Template.ofSource source).variableNames.Pairwise
        fun m n => ComesBefore source.toList m.toList n.toList := by
  have hpairwise := pairwise_comesBefore source.toList
  have hnodup : (Template.ofSource source).variableNames.Nodup := by
    refine hpairwise.imp ?_
    rintro m n h rfl
    exact h.irrefl
  refine ⟨ascending_sortedNames fun n hn => ?_, fun n => ?_, ?_, hpairwise⟩
  · exact isNameText_of_mem_pieces (mem_filterMap_name?.1 hn)
  · rw [mem_variablesOf, reference_mem_pieces_iff, isName]
  · refine (List.perm_ext_iff_of_nodup hnodup (nodup_sortedNames _)).2 fun n => ?_
    rw [mem_sortedNames]
    exact List.mem_eraseDups

end Formulary
