import Formulary.Proofs.Number.Doubles
/-!
# Rounding to whole numbers

Whatever the rule, rounding makes a finite number a whole one, and the whole one is finite
(`isFinite_roundBy`, `isIntegral_roundBy`).
-/

namespace Formulary

/-- A double that stands for a whole number, whatever it has been shifted by, is integral. -/
lemma isIntegral_of_binary {x : Float} {negative : Bool} {n k : Nat}
    (h : binary x = .finite negative (n * 2 ^ k) (-k)) : isIntegral x = true := by
  rw [isIntegral, h]
  cases k with
  | zero => rfl
  | succ k => exact decide_eq_true (Nat.mul_mod_left n (2 ^ (k + 1)))

/-- A finite number is rounded to a whole number that is no greater than its coefficient needs, or it is
whole and is left as it is. -/
lemma roundBy_eq (up : RoundingRule) {x : Float} (h : x.isFinite = true) :
    (∃ negative n, n < 2 ^ 53 ∧ roundBy up x = withSign negative (Float.ofNat n)) ∨
      roundBy up x = x ∧ isIntegral x = true := by
  obtain ⟨negative, m, e, hx⟩ := isFinite_iff.1 h
  rw [roundBy, hx, isIntegral, hx]
  cases e with
  | ofNat k => exact .inr ⟨rfl, rfl⟩
  | negSucc k =>
    refine .inl ⟨negative, _, ?_, rfl⟩
    have hm := coefficient_lt hx
    have hunit : 2 ≤ Nat.pow 2 (k + 1) := Nat.le_self_pow (Nat.succ_ne_zero k) 2
    have hwhole : m / Nat.pow 2 (k + 1) ≤ m / 2 := Nat.div_le_div_left hunit (by decide)
    split <;> omega

theorem isFinite_roundBy (up : RoundingRule) {x : Float} (h : x.isFinite = true) :
    (roundBy up x).isFinite = true := by
  rcases roundBy_eq up h with ⟨negative, n, hn, hround⟩ | ⟨hround, -⟩
  · obtain ⟨k, hk⟩ := binary_withSign_ofNat negative hn
    rw [hround]
    exact isFinite_iff.2 ⟨_, _, _, hk⟩
  · rwa [hround]

theorem isIntegral_roundBy (up : RoundingRule) {x : Float} (h : x.isFinite = true) :
    isIntegral (roundBy up x) = true := by
  rcases roundBy_eq up h with ⟨negative, n, hn, hround⟩ | ⟨hround, hx⟩
  · obtain ⟨k, hk⟩ := binary_withSign_ofNat negative hn
    rw [hround]
    exact isIntegral_of_binary hk
  · rwa [hround]

end Formulary
