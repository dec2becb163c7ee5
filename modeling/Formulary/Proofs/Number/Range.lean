import Formulary.Json.Numeral
import Formulary.Proofs.Number.Doubles
import Mathlib.Tactic.IntervalCases
/-!
# Operations that stay in range

A product of finite doubles is finite unless it is infinite, and a quotient is finite if the divisor is
two or more. So the numbers that JSON numerals write are finite (`isFinite_of_scaled?`).
-/

namespace Formulary

open Float.Model Float.Model.UnpackedFloat

/-! ## Unpacked operations -/

/-- What is rounded is packed as finite if its leading bit is not too high. -/
lemma isFinite_pack_round (s : Sign) {m : Nat} {e : Int} (a : Accuracy) (he : e ≤ 970)
    (hm : m.log2 - 52 + e ≤ 970) :
    (Float.Model.pack (roundWithAccuracy Format.binary64 s m e a)).unpack.isFinite = true := by
  rcases exponent_of_roundWithAccuracy s m e a with hzero | ⟨m', e', h, hfinite, he'⟩
  · rw [hzero, unpack_pack_zero]
    rfl
  · rw [hfinite]
    exact isFinite_pack (by omega)

lemma isFinite_or_isInf_pack {u : Float.Model.UnpackedFloat} (h : u.isFinite = true) :
    (Float.Model.pack u).unpack.isFinite = true ∨ (Float.Model.pack u).unpack.isInf = true := by
  rcases zero_or_finite h with ⟨s, rfl⟩ | ⟨s, m, e, hm, rfl⟩
  · rw [unpack_pack_zero]
    exact .inl rfl
  · rcases Int.lt_or_le 971 e with he | he
    · exact .inr (isInf_pack he)
    · exact .inl (isFinite_pack he)

lemma isFinite_round (s : Sign) (m : Nat) (e : Int) (a : Accuracy) :
    (roundWithAccuracy Format.binary64 s m e a).isFinite = true := by
  rcases exponent_of_roundWithAccuracy s m e a with hzero | ⟨m', e', h, hfinite, -⟩
  · rw [hzero]
    rfl
  · rw [hfinite]
    rfl

/-! ## Operations -/

/-- A product of finite doubles is infinite at worst. -/
lemma isFinite_mul {x y : Float} (hx : x.isFinite = true) (hy : y.isFinite = true)
    (h : (x * y).isInf = false) : (x * y).isFinite = true := by
  have hproduct :
      (UnpackedFloat.mul Format.binary64 x.toModel.unpack y.toModel.unpack).isFinite = true := by
    rcases zero_or_finite hx with ⟨s, hx⟩ | ⟨s, m, e, hm, hx⟩
    · rcases zero_or_finite hy with ⟨s', hy⟩ | ⟨s', m', e', hm', hy⟩
      · rw [hx, hy]
        rfl
      · rw [hx, hy]
        rfl
    · rcases zero_or_finite hy with ⟨s', hy⟩ | ⟨s', m', e', hm', hy⟩
      · rw [hx, hy]
        rfl
      · rw [hx, hy]
        exact isFinite_round (s * s') (m * m') (e + e') .exact
  have hnot : (x * y).toModel.unpack.isInf = false := h
  rw [unpack_mul] at hnot
  change (x * y).toModel.unpack.isFinite = true
  rw [unpack_mul]
  refine (isFinite_or_isInf_pack hproduct).resolve_right ?_
  rw [hnot]
  simp

lemma log2_div_le {a b : Nat} (hb : 0 < b) : (a / b).log2 ≤ a.log2 - b.log2 := by
  refine log2_le_of_lt ?_
  rw [Nat.div_lt_iff_lt_mul hb]
  calc a < 2 ^ (a.log2 + 1) := Nat.lt_log2_self
    _ ≤ 2 ^ (a.log2 - b.log2 + 1 + b.log2) := Nat.pow_le_pow_right (by decide) (by omega)
    _ = 2 ^ (a.log2 - b.log2 + 1) * 2 ^ b.log2 := Nat.pow_add _ _ _
    _ ≤ 2 ^ (a.log2 - b.log2 + 1) * b := Nat.mul_le_mul_left _ (Nat.log2_self_le hb.ne')

lemma unpack_div (x y : Float) : (x / y).toModel.unpack = (Float.Model.pack
    (UnpackedFloat.div Format.binary64 x.toModel.unpack y.toModel.unpack)).unpack := rfl

/-- A quotient is finite if the divisor is two or more. -/
lemma isFinite_div {x y : Float} {s : Sign} {m : Nat} {e : Int} {hm : 0 < m} (hx : x.isFinite = true)
    (hy : y.toModel.unpack = .finite s m e hm) (hleast : 1 ≤ m.log2 + e) : (x / y).isFinite = true := by
  change (x / y).toModel.unpack.isFinite = true
  rw [unpack_div, hy]
  rcases zero_or_finite hx with ⟨s', hx⟩ | ⟨s', m', e', hpos, hx⟩
  · rw [hx]
    change (Float.Model.pack (.zero (s' / s))).unpack.isFinite = true
    rw [unpack_pack_zero]
    rfl
  · have he' := exponent_le (binary_of_unpack hx)
    have hm' : m'.log2 ≤ 52 := log2_le_of_lt (coefficient_lt (binary_of_unpack hx))
    rw [hx]
    set t := min (e' - e) (Format.binary64.targetExponent (totalExponent m' e' - totalExponent m e))
      with ht
    rw [targetExponent_binary64, totalExponent, totalExponent] at ht
    have hquotient := log2_div_le (a := m' * 2 ^ (e' - e - t).toNat) hm
    rw [log2_mul_two_pow hpos] at hquotient
    change (Float.Model.pack (roundWithAccuracy Format.binary64 _
      (m' <<< (e' - e - t).toNat / m) t _)).unpack.isFinite = true
    rw [Nat.shiftLeft_eq]
    exact isFinite_pack_round _ _ (by omega) (by omega)

/-! ## Whole numbers and powers of ten -/

lemma unpack_ofScientific {m k : Nat} (hm : 0 < m) (h : ¬ (m < 2 ^ 53 ∧ k ≤ 22)) (hk : k ≤ 2048) :
    (Float.ofScientific m false k).toModel.unpack = (Float.Model.pack
      (roundWithAccuracy Format.binary64 .positive (m * 2 ^ 53 * 10 ^ k) (-53) .exact)).unpack := by
  have hmodel : (Float.ofScientific m false k).toModel = Float.Model.ofScientific m (k : Nat) := by
    rw [Float.ofScientific, dif_neg h]
    rfl
  rw [hmodel, Float.Model.ofScientific, UnpackedFloat.ofScientific, dif_neg hm.ne',
    if_neg (by change ¬ (k : Int) > 2048; omega), if_neg (by change ¬ (k : Int) < -(2048 + _); omega),
    if_pos (Int.natCast_nonneg k), ← Nat.shiftLeft_eq]
  rfl

/-- Whole numbers of 64 bits are finite as doubles. -/
lemma isFinite_ofNat {n : Nat} (hn : n < 2 ^ 64) : (Float.ofNat n).isFinite = true := by
  rcases Nat.lt_or_ge n (2 ^ 53) with hsmall | hlarge
  · obtain ⟨k, hk⟩ := binary_withSign_ofNat false hsmall
    exact isFinite_iff.2 ⟨_, _, _, hk⟩
  · have hlog : n.log2 ≤ 63 := log2_le_of_lt hn
    change (Float.ofScientific n false 0).toModel.unpack.isFinite = true
    rw [unpack_ofScientific (by omega) (by omega) (by decide), Nat.pow_zero, Nat.mul_one]
    refine isFinite_pack_round _ _ (by decide) ?_
    rw [log2_mul_two_pow (by omega)]
    omega

lemma log2_ten_pow_le (k : Nat) : (10 ^ k).log2 ≤ 10 * ((k + 2) / 3) := by
  refine log2_le_of_lt ?_
  calc 10 ^ k ≤ 10 ^ (3 * ((k + 2) / 3)) := Nat.pow_le_pow_right (by decide) (by omega)
    _ = (10 ^ 3) ^ ((k + 2) / 3) := Nat.pow_mul 10 3 _
    _ ≤ (2 ^ 10) ^ ((k + 2) / 3) := Nat.pow_le_pow_left (by decide) _
    _ = 2 ^ (10 * ((k + 2) / 3)) := (Nat.pow_mul 2 10 _).symm
    _ < 2 ^ (10 * ((k + 2) / 3) + 1) := Nat.pow_lt_pow_succ (by decide)

/-- A power of ten in range is finite, and its leading bit is high. -/
lemma unpack_powerOfTen {k : Nat} (hpos : 0 < k) (hk : k ≤ 308) : ∃ s m e hm,
    (Json.powerOfTen k).toModel.unpack = .finite s m e hm ∧ 1 ≤ m.log2 + e := by
  have hclosed : ∀ {m : Nat} {e : Int}, binary (Json.powerOfTen k) = .finite false m e →
      0 < m → 1 ≤ m.log2 + e → ∃ s m e hm,
        (Json.powerOfTen k).toModel.unpack = .finite s m e hm ∧ 1 ≤ m.log2 + e := by
    intro m e hbinary hm hleast
    obtain ⟨s, hm, hunpack⟩ := exists_unpack_of_binary hbinary hm
    exact ⟨s, m, e, hm, hunpack, hleast⟩
  rcases Nat.lt_or_ge 22 k with hlarge | hsmall
  · rcases Nat.lt_or_ge 306 k with hlast | hrest
    -- the last two are close to what is infinite
    · obtain rfl | rfl : k = 307 ∨ k = 308 := by omega
      · exact hclosed (m := 8016673440035891) (e := 967) (by decide +kernel) (by decide) (by decide)
      · exact hclosed (m := 5010420900022432) (e := 971) (by decide +kernel) (by decide) (by decide)
    · have hpower := unpack_ofScientific (m := 1) (by decide) (by omega) (by omega : k ≤ 2048)
      have hlog : (1 * 2 ^ 53 * 10 ^ k).log2 = (10 ^ k).log2 + 53 := by
        rw [Nat.one_mul, Nat.mul_comm, log2_mul_two_pow (Nat.pow_pos (by decide))]
      have hgreatest := log2_ten_pow_le k
      have hleast : 1 ≤ (10 ^ k).log2 := by
        rw [Nat.le_log2 (Nat.pow_pos (by decide)).ne']
        exact Nat.le_trans (by decide : 2 ^ 1 ≤ 10 ^ 1) (Nat.pow_le_pow_right (by decide) hpos)
      obtain ⟨m, e, hm, hround, hfull, hlt, he, he'⟩ :=
        roundWithAccuracy_full .positive (m := 1 * 2 ^ 53 * 10 ^ k) (e := -53) .exact (by omega)
          (by omega)
      rw [hround, unpack_pack hfull hlt (by omega) (by omega)] at hpower
      have hbits : m.log2 = 52 := (Nat.log2_eq_iff hm.ne').2 ⟨hfull, hlt⟩
      exact ⟨_, m, e, hm, hpower, by omega⟩
  · interval_cases k
    all_goals exact ⟨_, _, _, _, rfl, by decide⟩

lemma isFinite_powerOfTen {k : Nat} (hk : k ≤ 308) : (Json.powerOfTen k).isFinite = true := by
  rcases Nat.eq_zero_or_pos k with rfl | hpos
  · rfl
  · obtain ⟨s, m, e, hm, hunpack, -⟩ := unpack_powerOfTen hpos hk
    change (Json.powerOfTen k).toModel.unpack.isFinite = true
    rw [hunpack]
    rfl

/-! ## The numbers of numerals -/

/-- Dividing by powers of ten keeps a double finite. -/
lemma isFinite_divideByTens {x : Float} {k : Nat} (hx : x.isFinite = true) (hk : 0 < k) :
    (Json.divideByTens x k).isFinite = true := by
  fun_induction Json.divideByTens x k with
  | case1 x k hle =>
    obtain ⟨s, m, e, hm, hunpack, hleast⟩ := unpack_powerOfTen hk hle
    exact isFinite_div hx hunpack hleast
  | case2 x k hlt hzero => exact hx
  | case3 x k hlt hzero ih =>
    obtain ⟨s, m, e, hm, hunpack, hleast⟩ := unpack_powerOfTen (by decide) (Nat.le_refl 308)
    exact ih (isFinite_div hx hunpack hleast) (by omega)

/-- The numbers that JSON numerals write are finite. -/
theorem isFinite_of_scaled? {n : Nat} {shift : Int} {x : Float} (hn : n ≤ Json.maxSignificand)
    (h : Json.scaled? n shift = some x) : x.isFinite = true := by
  have hcount : (Float.ofNat n).isFinite = true := by
    refine isFinite_ofNat ?_
    have hmax : Json.maxSignificand + 1 = 2 ^ 64 := rfl
    omega
  cases shift with
  | negSucc k =>
    obtain rfl := Option.some.inj h
    exact isFinite_divideByTens hcount (Nat.succ_pos k)
  | ofNat k =>
    rw [Json.scaled?] at h
    dsimp only at h
    split at h
    · rename_i hk
      split at h
      · exact absurd h (by simp)
      · rename_i hinf
        obtain rfl := Option.some.inj h
        exact isFinite_mul hcount (isFinite_powerOfTen hk) (by simpa using hinf)
    · split at h
      · obtain rfl := Option.some.inj h
        exact hcount
      · exact absurd h (by simp)

end Formulary
