import Formulary.Arithmetic
import Formulary.Proofs.Number.Range
import Mathlib.Algebra.Order.Field.Power
import Mathlib.Algebra.Ring.Int.Parity
import Mathlib.Tactic.FieldSimp
/-!
# Roots of negative numbers

A double that stands for an integer (`StandsFor`) is held within 64 bits before its parity is looked at
(`StandsFor.toRange`). Far from zero all such doubles are even (`StandsFor.even`), and the least integer
of 64 bits is even too, so below it nothing changes; but the greatest is odd, so from `2 ^ 63` on the
even degrees count as odd (`odd_rootDegree_iff`). The reciprocal of an integer beyond one is a fraction
(`isIntegral_reciprocal`), and to such a power a negative number is not raised to a negative one. Main
statement: which degrees give a negative number a negative root (`takesOddRoot_iff`).
-/

namespace Formulary

open Arithmetic Float.Model Float.Model.UnpackedFloat

/-! ## Doubles that stand for integers -/

/-- A double stands for an integer: that is its exact value. -/
def StandsFor (x : Float) (z : Int) : Prop :=
  ∃ negative m e, binary x = .finite negative m e ∧
    (z : ℚ) = (if negative then -1 else 1) * (m * 2 ^ e)

/-- The magnitude of a whole number, from its coefficient and its exponent. -/
def IsWhole (m : Nat) : Int → Nat → Prop
  | .ofNat k, w => w = m * 2 ^ k
  | .negSucc k, w => m = w * 2 ^ (k + 1)

section
variable {x : Float} {z : Int} {m w : Nat} {e : Int}

lemma isWhole_of_eq (h : (w : ℚ) = m * 2 ^ e) : IsWhole m e w := by
  cases e with
  | ofNat k =>
    rw [Int.ofNat_eq_natCast, zpow_natCast] at h
    exact_mod_cast h
  | negSucc k =>
    rw [zpow_negSucc] at h
    have hm : (m : ℚ) = w * 2 ^ (k + 1) := by
      rw [h]
      field_simp
    exact_mod_cast hm

lemma IsWhole.log2 (h : IsWhole m e w) (hw : 0 < w) : 0 < m ∧ (w.log2 : Int) = m.log2 + e := by
  cases e with
  | ofNat k =>
    have hm : w = m * 2 ^ k := h
    have hpos : 0 < m := Nat.pos_of_mul_pos_right (hm ▸ hw)
    refine ⟨hpos, ?_⟩
    rw [hm, log2_mul_two_pow hpos]
    rfl
  | negSucc k =>
    have hm : m = w * 2 ^ (k + 1) := h
    refine ⟨hm ▸ mul_two_pow_pos hw (k + 1), ?_⟩
    rw [hm, log2_mul_two_pow hw]
    omega

lemma StandsFor.exists_whole (h : StandsFor x z) : ∃ negative m e, binary x = .finite negative m e ∧
    z = (if negative then -(z.natAbs : Int) else z.natAbs) ∧ IsWhole m e z.natAbs := by
  obtain ⟨negative, m, e, hx, hz⟩ := h
  have habs : (z.natAbs : ℚ) = m * 2 ^ e := by
    have hcast : (z.natAbs : ℚ) = |(z : ℚ)| := by
      rw [← Int.cast_abs, Int.abs_eq_natAbs]
      rfl
    rw [hcast, hz, abs_mul, abs_of_nonneg (a := (m : ℚ) * 2 ^ e) (by positivity)]
    cases negative <;> simp
  refine ⟨negative, m, e, hx, ?_, isWhole_of_eq habs⟩
  rw [← habs] at hz
  refine Int.cast_injective (α := ℚ) (hz.trans ?_)
  cases negative <;> simp

lemma StandsFor.isIntegral (h : StandsFor x z) : isIntegral x = true := by
  obtain ⟨negative, m, e, hx, -, hwhole⟩ := h.exists_whole
  rw [Formulary.isIntegral, hx]
  cases e with
  | ofNat k => rfl
  | negSucc k =>
    have hm : m = z.natAbs * Nat.pow 2 (k + 1) := hwhole
    exact decide_eq_true (hm ▸ Nat.mul_mod_left ..)

lemma StandsFor.toRange (h : StandsFor x z) (least greatest : Int) :
    toRange least greatest x = max least (min greatest z) := by
  obtain ⟨negative, m, e, hx, hz, hwhole⟩ := h.exists_whole
  rw [Formulary.toRange, hx]
  cases e with
  | ofNat k =>
    have hm : m * Nat.pow 2 k = z.natAbs := hwhole.symm
    dsimp only
    rw [hm, ← hz]
  | negSucc k =>
    have hm : m = z.natAbs * Nat.pow 2 (k + 1) := hwhole
    have hquotient : m / Nat.pow 2 (k + 1) = z.natAbs :=
      hm ▸ Nat.mul_div_cancel _ (Nat.two_pow_pos (k + 1))
    dsimp only
    rw [hquotient, ← hz]

/-- A double that stands for a large integer has no bit for the parity. -/
lemma StandsFor.even (h : StandsFor x z) (hz : 2 ^ 53 ≤ z.natAbs) : Even z := by
  obtain ⟨negative, m, e, hx, -, hwhole⟩ := h.exists_whole
  have hm := coefficient_lt hx
  rw [← Int.natAbs_even]
  rcases e with (_ | k) | k
  · have hw : z.natAbs = m * 2 ^ 0 := hwhole
    omega
  · have hw : z.natAbs = m * 2 ^ (k + 1) := hwhole
    rw [hw, Nat.pow_succ, ← Nat.mul_assoc]
    exact Nat.even_mul.2 (.inr even_two)
  · have hw : m = z.natAbs * 2 ^ (k + 1) := hwhole
    have hle : z.natAbs ≤ z.natAbs * 2 ^ (k + 1) := Nat.le_mul_of_pos_right _ (Nat.two_pow_pos _)
    omega

lemma odd_rootDegree_iff (h : StandsFor x z) : rootDegree x % 2 ≠ 0 ↔ Odd z ∨ 2 ^ 63 ≤ z := by
  have hbig : 2 ^ 53 ≤ z.natAbs → z % 2 = 0 := fun hz => Int.even_iff.1 (h.even hz)
  have hdegree : rootDegree x = max (-2 ^ 63) (min (2 ^ 63 - 1) z) := h.toRange _ _
  rw [hdegree, Int.odd_iff]
  omega

end

/-! ## Reciprocals -/

/-- A double with a mantissa that has not all its bits is packed as one of the least exponent. -/
lemma unpack_pack_subnormal {s : Sign} {m : Nat} {e : Int} {hm : 0 < m} (hlt : m < 2 ^ 52)
    (he : e ≤ 971) : (Float.Model.pack (.finite s m e hm)).unpack = .finite s m (-1074) hm := by
  have hlog : m.log2 ≤ 51 := log2_le_of_lt hlt
  have hmantissa : (BitVec.ofNat 52 m).toNat = m := by
    rw [BitVec.toNat_ofNat]
    exact Nat.mod_eq_of_lt hlt
  have hzero : BitVec.ofNat 52 m ≠ 0#52 := by
    rw [Ne, ← BitVec.toNat_inj, hmantissa]
    exact hm.ne'
  change UnpackedFloat.unpack Format.binary64 (UnpackedFloat.pack Format.binary64 _) = _
  rw [pack_finite, if_neg (by omega), if_neg (by omega), unpack_packComponents, if_neg (by decide),
    if_pos rfl, dif_neg hzero]
  exact finite_congr hmantissa rfl

/-- What is packed of a number below one is no integer. -/
lemma isIntegral_of_small {x : Float} {s : Sign} {m : Nat} {e : Int} {hm : 0 < m}
    (hx : x.toModel = Float.Model.pack (.finite s m e hm)) (hbits : m < 2 ^ 53) (hleast : -1074 ≤ e)
    (he : e ≤ -1) (hsmall : m < 2 ^ (-e).toNat) : isIntegral x = false := by
  have hfraction : ∀ i k, x.toModel.unpack = .finite s m (-(k + 1 : Nat)) hm →
      m < 2 ^ i → i ≤ k + 1 → isIntegral x = false := by
    intro i k hunpack hi hik
    have hlt : m < 2 ^ (k + 1) := hi.trans_le (Nat.pow_le_pow_right (by decide) hik)
    rw [isIntegral, binary_of_unpack hunpack]
    refine decide_eq_false ?_
    change ¬ m % 2 ^ (k + 1) = 0
    rw [Nat.mod_eq_of_lt hlt]
    exact hm.ne'
  obtain ⟨k, rfl⟩ : ∃ k : Nat, e = -(k + 1 : Nat) := ⟨(-e).toNat - 1, by omega⟩
  rcases Nat.lt_or_ge m (2 ^ 52) with hlt | hge
  · refine hfraction 52 1073 ?_ hlt (by decide)
    rw [hx]
    exact unpack_pack_subnormal hlt (by omega)
  · refine hfraction _ k ?_ hsmall (by omega)
    rw [hx]
    exact unpack_pack hge hbits hleast (by omega)

lemma unpack_one : (1.0 : Float).toModel.unpack = .finite .positive (2 ^ 52) (-52) (by decide) := by
  rfl

/-- A number that is no more than one half, and not too small, is rounded to one below one. -/
lemma round_below_one (s : Sign) (a : Accuracy) {q d : Nat} {t : Int} (hlow : 2 ^ d ≤ q)
    (hhigh : q ≤ 2 ^ (d + 1)) (hleast : -1074 ≤ d + t) (hgreatest : d + t ≤ -2) :
    ∃ m e h, roundWithAccuracy Format.binary64 s q t a = .finite s m e h ∧
      m < 2 ^ 53 ∧ -1074 ≤ e ∧ e ≤ -1 ∧ m < 2 ^ (-e).toNat := by
  obtain ⟨r, k, j, hr, hr', ⟨hk, hj⟩, hround⟩ := roundWithAccuracy_eq s q t a
  have hdq : d ≤ q.log2 := (Nat.le_log2 (Nat.pos_of_ne_zero (by rintro rfl; simp at hlow)).ne').2 hlow
  have hqd : q.log2 ≤ d + 1 :=
    log2_le_of_lt (hhigh.trans_lt (Nat.pow_lt_pow_right (by decide) (by omega)))
  have hkd : k ≤ d := by omega
  have hquotient : q / 2 ^ k ≤ 2 ^ (d + 1 - k) := by
    rw [← Nat.pow_div (by omega) (by decide)]
    exact Nat.div_le_div_right hhigh
  have hpositive : 0 < q / 2 ^ k :=
    Nat.div_pos ((Nat.pow_le_pow_right (by decide) hkd).trans hlow) (Nat.two_pow_pos k)
  have hrlt : r < 2 ^ (d + 2 - k) := by
    have hdouble : 2 ^ (d + 2 - k) = 2 * 2 ^ (d + 1 - k) := by
      rw [← Nat.pow_succ']
      congr 1
      omega
    have htwo : 2 ^ 1 ≤ 2 ^ (d + 1 - k) := Nat.pow_le_pow_right (by decide) (by omega)
    omega
  have hlog : r.log2 ≤ d + 1 - k := log2_le_of_lt (by rwa [show d + 1 - k + 1 = d + 2 - k by omega])
  have hjr : j ≤ r.log2 := by omega
  have hne : r / 2 ^ j ≠ 0 := by
    have hle : 2 ^ j ≤ r := (Nat.pow_le_pow_right (by decide) hjr).trans (Nat.log2_self_le (by omega))
    exact (Nat.div_pos hle (Nat.two_pow_pos j)).ne'
  refine ⟨r / 2 ^ j, t + k + j, Nat.pos_of_ne_zero hne, hround.trans (dif_neg hne), ?_, ?_, ?_, ?_⟩
  · exact div_two_pow_lt (by omega)
  · omega
  · omega
  · rw [Nat.div_lt_iff_lt_mul (Nat.two_pow_pos j), ← Nat.pow_add]
    exact hrlt.trans_le (Nat.pow_le_pow_right (by decide) (by omega))

lemma two_pow_div_bounds {m c : Nat} (hm : 0 < m) (hc : m.log2 < c) :
    2 ^ (c - m.log2 - 1) ≤ 2 ^ c / m ∧ 2 ^ c / m ≤ 2 ^ (c - m.log2 - 1 + 1) := by
  constructor
  · rw [Nat.le_div_iff_mul_le hm]
    calc 2 ^ (c - m.log2 - 1) * m ≤ 2 ^ (c - m.log2 - 1) * 2 ^ (m.log2 + 1) :=
          Nat.mul_le_mul_left _ Nat.lt_log2_self.le
      _ = 2 ^ c := by rw [← Nat.pow_add]; congr 1; omega
  · calc 2 ^ c / m ≤ 2 ^ c / 2 ^ m.log2 :=
          Nat.div_le_div_left (Nat.log2_self_le hm.ne') (Nat.two_pow_pos _)
      _ = 2 ^ (c - m.log2 - 1 + 1) := by rw [Nat.pow_div hc.le (by decide)]; congr 1; omega

/-- **The reciprocal of an integer beyond one is a fraction**, also where it is too small to have all
its bits. -/
lemma isIntegral_reciprocal {n : Float} {z : Int} (h : StandsFor n z) (hz : 2 ≤ z.natAbs) :
    isIntegral (1.0 / n) = false := by
  obtain ⟨negative, m, e, hn, -, hwhole⟩ := h.exists_whole
  obtain ⟨hpos, hlog⟩ := hwhole.log2 (by omega)
  have htwo : 1 ≤ z.natAbs.log2 := (Nat.le_log2 (by omega)).2 hz
  have hbits : m.log2 ≤ 52 := log2_le_of_lt (coefficient_lt hn)
  have he := exponent_le hn
  obtain ⟨s, hm, hunpack⟩ := exists_unpack_of_binary hn hpos
  set t := min (-52 - e)
    (Format.binary64.targetExponent (totalExponent (2 ^ 52) (-52) - totalExponent m e)) with ht
  set shift := (-52 - e - t).toNat with hshift
  have hmodel : (1.0 / n).toModel = Float.Model.pack (roundWithAccuracy Format.binary64 (.positive / s)
      (2 ^ 52 <<< shift / m) t (accuracyOfFraction (2 ^ 52 <<< shift % m) m)) := by
    change Float.Model.pack (UnpackedFloat.div Format.binary64 (1.0 : Float).toModel.unpack
      n.toModel.unpack) = _
    rw [unpack_one, hunpack]
    rfl
  rw [targetExponent_binary64, totalExponent, totalExponent, Nat.log2_two_pow] at ht
  obtain ⟨hlow, hhigh⟩ := two_pow_div_bounds (c := 52 + shift) hpos (by omega)
  rw [Nat.pow_add, ← Nat.shiftLeft_eq] at hlow hhigh
  obtain ⟨m', e', hm', hround, hbits', hleast, hgreatest, hsmall⟩ :=
    round_below_one (.positive / s) (accuracyOfFraction (2 ^ 52 <<< shift % m) m) hlow hhigh
      (t := t) (by omega) (by omega)
  rw [hround] at hmodel
  exact isIntegral_of_small hmodel hbits' hleast hgreatest hsmall

/-! ## Roots -/

/-- The root is taken of the opposite of a number and given the sign back, whatever powers are. -/
def TakesOddRoot (x n : Float) : Prop :=
  ∀ power, rootBy power x n = -power (-x) (1.0 / n)

/-- Raised to a fraction, a negative number does not become another one. -/
def LeavesNegatives (power : Float → Float → Float) : Prop :=
  ∀ x y, x < 0.0 → isIntegral y = false → ¬ power x y < 0.0

section
variable {x n : Float} {z : Int}

lemma rootBy_of_standsFor (hx : x < 0.0) (hn : StandsFor n z) (power : Float → Float → Float) :
    rootBy power x n =
      if Odd z ∨ 2 ^ 63 ≤ z then -power (-x) (1.0 / n) else power x (1.0 / n) := by
  have hdegree := odd_rootDegree_iff hn
  rw [rootBy, decide_eq_true hx, hn.isIntegral, Bool.true_and, Bool.true_and]
  simp only [decide_eq_true_eq, hdegree]

lemma takesOddRoot_of_standsFor (hx : x < 0.0) (hn : StandsFor n z) :
    TakesOddRoot x n ↔ Odd z ∨ 2 ^ 63 ≤ z := by
  constructor
  · intro h
    by_contra hdegree
    -- powers that are all one tell the two roots apart
    have hone := h fun _ _ => 1.0
    rw [rootBy_of_standsFor hx hn, if_neg hdegree] at hone
    exact absurd hone (by decide +kernel)
  · intro hdegree power
    rw [rootBy_of_standsFor hx hn, if_pos hdegree]

/-- **A negative number has a negative root of every odd degree, and of every degree from `2 ^ 63` on,
all of which are even.** It has none of the other even degrees. -/
theorem takesOddRoot_iff (hx : x < 0.0) (hn : StandsFor n z) (hz : z ≠ 0) :
    nthRoot x n =
      (if Odd z ∨ 2 ^ 63 ≤ z then -Float.pow (-x) (1.0 / n) else Float.pow x (1.0 / n)) ∧
    (TakesOddRoot x n ↔ Odd z ∨ 2 ^ 63 ≤ z) ∧
    (2 ^ 63 ≤ z → Even z) ∧
    (Even z → z < 2 ^ 63 → ∀ power, LeavesNegatives power → ¬ rootBy power x n < 0.0) := by
  refine ⟨rootBy_of_standsFor hx hn Float.pow, takesOddRoot_of_standsFor hx hn, fun hle => ?_,
    fun heven hlt power hpower => ?_⟩
  · exact hn.even (by omega)
  · have hdegree : ¬ (Odd z ∨ 2 ^ 63 ≤ z) := by
      rw [not_or, Int.not_odd_iff_even, Int.not_le]
      exact ⟨heven, hlt⟩
    have htwo : 2 ≤ z.natAbs := by
      rw [Int.even_iff] at heven
      omega
    rw [rootBy_of_standsFor hx hn, if_neg hdegree]
    exact hpower _ _ hx (isIntegral_reciprocal hn htwo)

/-- Powers that are not numbers where a negative number is raised to a fraction. -/
def principalPower (x y : Float) : Float :=
  if x < 0.0 && !isIntegral y then notANumber else Float.pow x y

/-- A negative number has a third root that is negative, and no fourth one. -/
theorem roots_of_minusEight :
    (-8.0 : Float) < 0.0 ∧ StandsFor 3.0 3 ∧ TakesOddRoot (-8.0) 3.0 ∧
      StandsFor 4.0 4 ∧ ¬ TakesOddRoot (-8.0) 4.0 ∧ LeavesNegatives principalPower ∧
      ¬ rootBy principalPower (-8.0) 4.0 < 0.0 := by
  have hx : (-8.0 : Float) < 0.0 := by decide +kernel
  have hthree : StandsFor 3.0 3 := ⟨false, 3 * 2 ^ 51, -51, by decide +kernel, by norm_num⟩
  have hfour : StandsFor 4.0 4 := ⟨false, 2 ^ 52, -50, by decide +kernel, by norm_num⟩
  have hprincipal : LeavesNegatives principalPower := by
    intro x y hx hy
    have hnone : principalPower x y = notANumber := by simp [principalPower, hx, hy]
    rw [hnone]
    decide +kernel
  obtain ⟨-, hodd, -⟩ := takesOddRoot_iff hx hthree (by decide)
  obtain ⟨-, hother, -, heven⟩ := takesOddRoot_iff hx hfour (by decide)
  refine ⟨hx, hthree, hodd.2 (by decide), hfour, ?_, hprincipal, ?_⟩
  · exact fun h => absurd (hother.1 h) (by decide)
  · exact heven (by decide) (by decide) principalPower hprincipal

/-- The root of an even degree that is taken as an odd one. -/
theorem takesOddRoot_of_even :
    (-8.0 : Float) < 0.0 ∧ StandsFor 9223372036854775808.0 (2 ^ 63) ∧ Even (2 ^ 63 : Int) ∧
      TakesOddRoot (-8.0) 9223372036854775808.0 ∧
      nthRoot (-8.0) 9223372036854775808.0 =
        -Float.pow (-(-8.0)) (1.0 / 9223372036854775808.0) := by
  have hx : (-8.0 : Float) < 0.0 := by decide +kernel
  have hn : StandsFor 9223372036854775808.0 (2 ^ 63) :=
    ⟨false, 2 ^ 52, 11, by decide +kernel, by norm_num⟩
  have hodd : TakesOddRoot (-8.0) 9223372036854775808.0 :=
    (takesOddRoot_of_standsFor hx hn).2 (by decide)
  exact ⟨hx, hn, by decide, hodd, hodd Float.pow⟩

end

end Formulary
