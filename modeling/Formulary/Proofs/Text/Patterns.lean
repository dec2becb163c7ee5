import Mathlib.Computability.Language
/-!
# Patterns

A pattern is a set of texts. Patterns are made of single characters of a kind and of fixed texts, one
after another, as alternatives and repeated.
-/

namespace Formulary

open Computability

/-- One character of a kind. -/
def oneOf (p : Char → Bool) : Language Char :=
  {cs | ∃ c, p c = true ∧ cs = [c]}

/-- A fixed text. -/
def literal (cs : List Char) : Language Char :=
  {cs}

/-- A pattern or nothing. -/
def optional (L : Language Char) : Language Char :=
  1 + L

/-- Characters of a kind, at least one. -/
def atLeastOne (p : Char → Bool) : Language Char :=
  oneOf p * (oneOf p)∗

section
variable {p : Char → Bool} {cs ds : List Char} {L : Language Char}

@[simp] lemma mem_literal : cs ∈ literal ds ↔ cs = ds :=
  Iff.rfl

@[simp] lemma mem_optional : cs ∈ optional L ↔ cs = [] ∨ cs ∈ L :=
  Iff.rfl

/-- Characters of a kind one after another are a text of such characters. -/
lemma mem_many : cs ∈ (oneOf p)∗ ↔ ∀ c ∈ cs, p c = true := by
  rw [Language.mem_kstar]
  constructor
  · rintro ⟨parts, rfl, hparts⟩ c hc
    obtain ⟨part, hpart, hc⟩ := List.mem_flatten.1 hc
    obtain ⟨d, hd, rfl⟩ := hparts part hpart
    rwa [List.mem_singleton.1 hc]
  · intro h
    refine ⟨cs.map fun c => [c], (List.flatMap_singleton' cs).symm, ?_⟩
    intro part hpart
    obtain ⟨c, hc, rfl⟩ := List.mem_map.1 hpart
    exact ⟨c, h c hc, rfl⟩

lemma append_mem_kstar (hcs : cs ∈ L) (hds : ds ∈ L∗) : cs ++ ds ∈ L∗ := by
  rw [← Language.one_add_self_mul_kstar_eq_kstar]
  exact .inr (Language.append_mem_mul hcs hds)

lemma mem_oneOf_mul : cs ∈ oneOf p * L ↔ ∃ c ds, cs = c :: ds ∧ p c = true ∧ ds ∈ L := by
  rw [Language.mem_mul]
  constructor
  · rintro ⟨_, ⟨c, hc, rfl⟩, ds, hds, rfl⟩
    exact ⟨c, ds, rfl, hc, hds⟩
  · rintro ⟨c, ds, rfl, hc, hds⟩
    exact ⟨[c], ⟨c, hc, rfl⟩, ds, hds, rfl⟩

lemma mem_literal_mul : cs ∈ literal ds * L ↔ ∃ es ∈ L, cs = ds ++ es := by
  rw [Language.mem_mul]
  constructor
  · rintro ⟨_, rfl, es, hes, rfl⟩
    exact ⟨es, hes, rfl⟩
  · rintro ⟨es, hes, rfl⟩
    exact ⟨ds, rfl, es, hes, rfl⟩

lemma mem_mul_literal : cs ∈ L * literal ds ↔ ∃ es ∈ L, cs = es ++ ds := by
  rw [Language.mem_mul]
  constructor
  · rintro ⟨es, hes, _, rfl, rfl⟩
    exact ⟨es, hes, rfl⟩
  · rintro ⟨es, hes, rfl⟩
    exact ⟨es, hes, ds, rfl, rfl⟩

lemma mem_atLeastOne : cs ∈ atLeastOne p ↔ cs ≠ [] ∧ ∀ c ∈ cs, p c = true := by
  rw [atLeastOne, mem_oneOf_mul]
  constructor
  · rintro ⟨c, ds, rfl, hc, hds⟩
    rw [mem_many] at hds
    exact ⟨by simp, by simpa using ⟨hc, hds⟩⟩
  · rintro ⟨hne, hcs⟩
    obtain ⟨c, ds, rfl⟩ := List.exists_cons_of_ne_nil hne
    rw [List.forall_mem_cons] at hcs
    exact ⟨c, ds, rfl, hcs.1, mem_many.2 hcs.2⟩

end

end Formulary
