import Formulary.Scope
import Mathlib.Tactic.Common
/-!
# Bindings of scopes

The names of a scope are those that it binds (`Scope.contains_iff_mem_names`). Scopes are compared by
their bindings (`Scope.Le`); binding a new name makes a scope greater (`Scope.le_insert`).
-/

namespace Formulary

/-- What is found in a table stands there. -/
lemma mem_of_lookup {α : Type} {key : String} {a : α} {table : List (String × α)}
    (h : table.lookup key = some a) : (key, a) ∈ table := by
  obtain ⟨before, after, htable, -⟩ := List.lookup_eq_some_iff.1 h
  rw [htable]
  exact List.mem_append_right before List.mem_cons_self

/-- Every binding of one scope is a binding of the other. -/
def Scope.Le (s t : Scope) : Prop :=
  ∀ name x, s.get? name = some x → t.get? name = some x

namespace Scope

/-! ## What is bound -/

lemma contains_eq_false_iff {s : Scope} {name : String} :
    s.contains name = false ↔ s.get? name = none := by
  rw [contains, Option.isSome_eq_false_iff, Option.isNone_iff_eq_none]

lemma get?_eq_none_iff {s : Scope} {name : String} : s.get? name = none ↔ name ∉ s.names := by
  rw [get?, List.lookup_eq_none_iff, names, List.mem_map]
  constructor
  · rintro h ⟨b, hb, rfl⟩
    exact absurd (h b hb) (by simp)
  · intro h b hb
    rw [bne_iff_ne]
    exact fun hname => h ⟨b, hb, hname.symm⟩

lemma contains_iff_mem_names {s : Scope} {name : String} :
    s.contains name = true ↔ name ∈ s.names := by
  rw [← not_iff_not, Bool.not_eq_true, contains_eq_false_iff, get?_eq_none_iff]

/-! ## Scopes with more bindings -/

lemma Le.refl (s : Scope) : s.Le s :=
  fun _ _ h => h

lemma Le.trans {s t u : Scope} (hst : s.Le t) (htu : t.Le u) : s.Le u :=
  fun name x h => htu name x (hst name x h)

lemma get?_eq_of_le_of_le {s t : Scope} (hst : s.Le t) (hts : t.Le s) (name : String) :
    s.get? name = t.get? name := by
  rcases hs : s.get? name with _ | x
  · rcases ht : t.get? name with _ | x
    · rfl
    · have := hts name x ht
      rw [hs] at this
      exact absurd this (by simp)
  · exact (hst name x hs).symm

lemma get?_insert_self (s : Scope) (name : String) (x : Float) :
    (s.insert name x).get? name = some x := by
  rw [get?_insert, if_pos rfl]

lemma names_insert_of_not_mem {s : Scope} {name : String} (x : Float) (h : name ∉ s.names) :
    (s.insert name x).names = s.names ++ [name] := by
  rw [names_insert, if_neg h]

lemma le_insert {s : Scope} {name : String} (x : Float) (h : name ∉ s.names) :
    s.Le (s.insert name x) := by
  intro n y hn
  rw [get?_insert, if_neg, hn]
  rintro rfl
  rw [get?_eq_none_iff.2 h] at hn
  exact absurd hn (by simp)

/-- A scope stays below one that has the binding that is added. -/
lemma insert_le {s t : Scope} {name : String} {x : Float} (hst : s.Le t)
    (h : t.get? name = some x) : (s.insert name x).Le t := by
  intro n y hn
  rw [get?_insert] at hn
  split at hn
  · rename_i hname
    rw [hname, h, hn]
  · exact hst n y hn

lemma contains_insert {s : Scope} {name n : String} {x : Float} :
    (s.insert name x).contains n = true ↔ n = name ∨ s.contains n = true := by
  rw [contains, get?_insert, contains]
  split <;> simp_all

/-! ## Scopes with one name less -/

/-- The bindings of the other names, in the same order. -/
def without (s : Scope) (name : String) : Scope where
  bindings := s.bindings.filter fun b => b.1 ≠ name
  distinct := s.distinct.sublist (List.filter_sublist.map Prod.fst)

section
variable {s : Scope} {name n : String} {x : Float}

lemma ext_bindings {t : Scope} (h : s.bindings = t.bindings) : s = t := by
  cases s
  cases t
  cases h
  rfl

lemma get?_without (h : n ≠ name) : (s.without name).get? n = s.get? n := by
  rw [get?, get?, without]
  dsimp only
  induction s.bindings with
  | nil => rfl
  | cons b bs ih =>
    obtain ⟨k, y⟩ := b
    by_cases hk : k = name
    · have hn : (n == k) = false := by
        rw [hk]
        simpa using h
      rw [List.filter_cons_of_neg (by simp [hk]), ih, List.lookup_cons, hn]
    · rw [List.filter_cons_of_pos (by simp [hk]), List.lookup_cons, List.lookup_cons, ih]

lemma without_of_not_mem (h : name ∉ s.names) : s.without name = s := by
  refine ext_bindings (List.filter_eq_self.2 fun b hb => decide_eq_true ?_)
  rintro rfl
  exact h (List.mem_map.2 ⟨b, hb, rfl⟩)

/-- Binding another name can come first or last. -/
lemma without_insert (h : n ≠ name) : (s.insert n x).without name = (s.without name).insert n x := by
  refine ext_bindings ?_
  change (bindName n x s.bindings).filter _ = bindName n x (s.bindings.filter _)
  induction s.bindings with
  | nil => simp [bindName, h]
  | cons b bs ih =>
    by_cases hb : b.1 = n
    · have hname : b.1 ≠ name := hb ▸ h
      simp [bindName, hb, h]
    · by_cases hname : b.1 = name
      · have hn : ¬ name = n := fun e => h e.symm
        simp only [bindName, hname, hn, if_false]
        rw [List.filter_cons_of_neg (by simp [hname]), List.filter_cons_of_neg (by simp [hname]), ih]
      · simp only [bindName, hb, if_false]
        rw [List.filter_cons_of_pos (by simp [hname]), List.filter_cons_of_pos (by simp [hname]), ih]
        simp [bindName, hb]

/-- Binding a new name is undone. -/
lemma without_insert_self (h : name ∉ s.names) : (s.insert name x).without name = s := by
  have hbindings : ∀ bs : List (String × Float), name ∉ bs.map Prod.fst →
      (bindName name x bs).filter (fun b => b.1 ≠ name) = bs := by
    intro bs hbs
    induction bs with
    | nil => simp [bindName]
    | cons b bs ih =>
      have hb : b.1 ≠ name := fun e => hbs (List.mem_map.2 ⟨b, List.mem_cons_self, e⟩)
      have hrest := ih fun hmem => hbs (List.mem_cons_of_mem b.1 hmem)
      rw [bindName, if_neg hb, List.filter_cons_of_pos (by simp [hb]), hrest]
  exact ext_bindings (hbindings s.bindings h)

end

end Scope
end Formulary
