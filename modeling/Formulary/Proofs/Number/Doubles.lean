import Formulary.Number.Binary
import Mathlib.Algebra.Order.Ring.Int
/-!
# Doubles as packed numbers

A double packs a sign, a mantissa and an exponent into its bits, and an operation unpacks its operands,
computes with them, rounds and packs the result. Packing and unpacking are opened once each
(`pack_finite`, `unpack_eq`). What a double stands for is what it is unpacked to (`binary_eq`). A
mantissa that has all its 53 bits survives rounding and packing (`roundWithAccuracy_exact`,
`unpack_pack`), so whole numbers of at most 53 bits are doubles (`binary_withSign_ofNat`).
-/

namespace Formulary

open Float.Model Float.Model.UnpackedFloat

/-! ## Bits -/

section
variable (b : BitVec Format.binary64.numBits)

lemma toNat_unpackMantissa : (unpackMantissa b).toNat = b.toNat % 2 ^ 52 := by
  simp [unpackMantissa]

lemma toNat_unpackExponent : (unpackExponent b).toNat = b.toNat / 2 ^ 52 % 2 ^ 11 := by
  simp [unpackExponent, Nat.shiftRight_eq_div_pow]

lemma ofBitVec_unpackSign :
    (Sign.ofBitVec (unpackSign b) == .negative) = decide (Nat.pow 2 63 ≤ b.toNat) := by
  have hsign : (unpackSign b).toNat = b.toNat / 2 ^ 63 % 2 := by
    change (BitVec.extractLsb 63 63 b).toNat = _
    simp [Nat.shiftRight_eq_div_pow]
  have hlt : b.toNat < 2 ^ 64 := b.isLt
  have hiff : unpackSign b = 0#1 ↔ b.toNat < 2 ^ 63 := by
    rw [← BitVec.toNat_inj, hsign]
    change _ = 0 ↔ _
    omega
  rw [Sign.ofBitVec]
  by_cases h : 2 ^ 63 ≤ b.toNat
  · rw [if_neg (by rw [hiff]; omega)]
    exact (decide_eq_true h).symm
  · rw [if_pos (by rw [hiff]; omega)]
    exact (decide_eq_false h).symm

end

lemma toNat_one_append (m : BitVec 52) : (1#1 ++ m).toNat = 2 ^ 52 + m.toNat := by
  rw [BitVec.toNat_append, ← Nat.shiftLeft_add_eq_or_of_lt m.isLt]
  rfl

/-- What the sign, the exponent and the mantissa among the bits are unpacked to. -/
lemma unpack_eq {b : BitVec Format.binary64.numBits} {s : Sign} {e : BitVec 11} {m : BitVec 52}
    (hs : Sign.ofBitVec (unpackSign b) = s) (he : unpackExponent b = e) (hm : unpackMantissa b = m) :
    UnpackedFloat.unpack Format.binary64 b =
      if e = -1#11 then if m = 0#52 then .infinity s else .notANumber
      else if e = 0#11 then
        if h : m = 0#52 then .zero s
        else .finite s m.toNat (e.toNat - 1075 + 1) (BitVec.toNat_pos_of_ne_zero h)
      else .finite s (1#1 ++ m).toNat (e.toNat - 1075) (by rw [toNat_one_append]; omega) := by
  subst hs he hm
  rfl

lemma finite_congr {s : Sign} {m n : Nat} {e f : Int} {hm : 0 < m} {hn : 0 < n} (hmn : m = n)
    (hef : e = f) : UnpackedFloat.finite s m e hm = .finite s n f hn := by
  subst hmn hef
  rfl

/-- What an unpacked double stands for. -/
def Binary.ofUnpacked : Float.Model.UnpackedFloat → Binary
  | .notANumber => nan
  | .infinity s => infinite (s == .negative)
  | .zero s => finite (s == .negative) 0 leastExponent
  | .finite s m e _ => finite (s == .negative) m e

@[simp] lemma Binary.ofUnpacked_infinity {s : Sign} :
    Binary.ofUnpacked (.infinity s) = .infinite (s == .negative) := rfl

@[simp] lemma Binary.ofUnpacked_notANumber : Binary.ofUnpacked .notANumber = .nan := rfl

@[simp] lemma Binary.ofUnpacked_zero {s : Sign} :
    Binary.ofUnpacked (.zero s) = .finite (s == .negative) 0 Binary.leastExponent := rfl

@[simp] lemma Binary.ofUnpacked_finite {s : Sign} {m : Nat} {e : Int} {hm : 0 < m} :
    Binary.ofUnpacked (.finite s m e hm) = .finite (s == .negative) m e := rfl

lemma ofPattern_toNat (b : BitVec Format.binary64.numBits) :
    Binary.ofPattern b.toNat = .ofUnpacked (UnpackedFloat.unpack Format.binary64 b) := by
  have hmantissa := toNat_unpackMantissa b
  have hexponent := toNat_unpackExponent b
  have hsign := ofBitVec_unpackSign b
  have htop_iff : unpackExponent b = -1#11 ↔ b.toNat / 2 ^ 52 % 2 ^ 11 = 2047 := by
    rw [← BitVec.toNat_inj, hexponent]
    rfl
  have hbottom_iff : unpackExponent b = 0#11 ↔ b.toNat / 2 ^ 52 % 2 ^ 11 = 0 := by
    rw [← BitVec.toNat_inj, hexponent]
    rfl
  have hzero_iff : unpackMantissa b = 0#52 ↔ b.toNat % 2 ^ 52 = 0 := by
    rw [← BitVec.toNat_inj, hmantissa]
    rfl
  rw [Binary.ofPattern, unpack_eq rfl rfl rfl]
  change (if b.toNat / 2 ^ 52 % 2 ^ 11 = 2047 then
    if b.toNat % 2 ^ 52 = 0 then _ else _ else if b.toNat / 2 ^ 52 % 2 ^ 11 = 0 then _ else _) = _
  by_cases htop : unpackExponent b = -1#11
  · rw [if_pos htop, if_pos (htop_iff.1 htop)]
    by_cases hzero : unpackMantissa b = 0#52
    · rw [if_pos hzero, if_pos (hzero_iff.1 hzero), Binary.ofUnpacked_infinity, hsign]
    · rw [if_neg hzero, if_neg (mt hzero_iff.2 hzero), Binary.ofUnpacked_notANumber]
  · rw [if_neg htop, if_neg (mt htop_iff.2 htop)]
    by_cases hbottom : unpackExponent b = 0#11
    · rw [if_pos hbottom, if_pos (hbottom_iff.1 hbottom)]
      by_cases hzero : unpackMantissa b = 0#52
      · rw [dif_pos hzero, Binary.ofUnpacked_zero, hsign]
        exact congrArg (Binary.finite _ · _) (hzero_iff.1 hzero)
      · rw [dif_neg hzero, Binary.ofUnpacked_finite, hsign, hmantissa, hbottom]
        rfl
    · rw [if_neg hbottom, if_neg (mt hbottom_iff.2 hbottom), Binary.ofUnpacked_finite, hsign,
        toNat_one_append, hmantissa, hexponent]
      rfl

/-- A double stands for what its bits are unpacked to. -/
theorem binary_eq (x : Float) : binary x = .ofUnpacked x.toModel.unpack :=
  ofPattern_toNat x.toModel.toBits.toBitVec

/-! ## Packing -/

section
variable {s : Sign} {e : BitVec 11} {m : BitVec 52}

lemma unpackSign_packComponents :
    Sign.ofBitVec (unpackSign (packComponents Format.binary64 s e m)) = s := by
  have hbit : unpackSign (packComponents Format.binary64 s e m) = s.toBitVec := by
    change BitVec.extractLsb' 63 1 (s.toBitVec ++ e ++ m) = _
    rw [BitVec.extractLsb'_append_eq_of_le (by decide), BitVec.extractLsb'_append_eq_of_le (by decide)]
    cases s <;> rfl
  rw [hbit]
  cases s <;> rfl

/-- What is packed from a sign, an exponent and a mantissa is unpacked by the same three. -/
lemma unpack_packComponents :
    UnpackedFloat.unpack Format.binary64 (packComponents Format.binary64 s e m) =
      if e = -1#11 then if m = 0#52 then .infinity s else .notANumber
      else if e = 0#11 then
        if h : m = 0#52 then .zero s
        else .finite s m.toNat (e.toNat - 1075 + 1) (BitVec.toNat_pos_of_ne_zero h)
      else .finite s (1#1 ++ m).toNat (e.toNat - 1075) (by rw [toNat_one_append]; omega) :=
  unpack_eq unpackSign_packComponents unpackExponent_packComponents unpackMantissa_packComponents

lemma isFinite_unpack_packComponents (he : e.toNat < 2047) :
    (UnpackedFloat.unpack Format.binary64 (packComponents Format.binary64 s e m)).isFinite = true := by
  have htop : e ≠ -1#11 := by
    rintro rfl
    exact absurd he (by decide)
  rw [unpack_packComponents, if_neg htop]
  by_cases hbottom : e = 0#11
  · rw [if_pos hbottom]
    by_cases hzero : m = 0#52
    · rw [dif_pos hzero]
      rfl
    · rw [dif_neg hzero]
      rfl
  · rw [if_neg hbottom]
    rfl

end

section
variable {s : Sign} {m : Nat} {e : Int} {hm : 0 < m}

lemma pack_finite : UnpackedFloat.pack Format.binary64 (.finite s m e hm) =
    if 2048 ≤ (e + 1075).toNat + 1 then packedInfinity Format.binary64 s
    else if m.log2 + 1 = 53 then
      packComponents Format.binary64 s (BitVec.ofNat 11 (e + 1075).toNat) (BitVec.ofNat 52 m)
    else packComponents Format.binary64 s 0#11 (BitVec.ofNat 52 m) := by
  have hbiased : e + 1075 = e + (1023 : Nat) + (52 : Nat) := by omega
  rw [hbiased]
  rfl

/-- A double whose exponent is not too large is packed as finite. -/
lemma isFinite_pack (he : e ≤ 971) : (Float.Model.pack (.finite s m e hm)).unpack.isFinite = true := by
  change (UnpackedFloat.unpack Format.binary64 (UnpackedFloat.pack Format.binary64 _)).isFinite = _
  rw [pack_finite, if_neg (by omega)]
  split
  · refine isFinite_unpack_packComponents ?_
    rw [BitVec.toNat_ofNat]
    omega
  · exact isFinite_unpack_packComponents (by decide)

/-- A double whose exponent is too large is packed as infinite. -/
lemma isInf_pack (he : 971 < e) : (Float.Model.pack (.finite s m e hm)).unpack.isInf = true := by
  change (UnpackedFloat.unpack Format.binary64 (UnpackedFloat.pack Format.binary64 _)).isInf = _
  rw [pack_finite, if_pos (by omega), packedInfinity, unpack_packComponents, if_pos rfl]
  rfl

/-- A double whose mantissa has all its bits is unpacked as it was packed. -/
lemma unpack_pack (hleast : 2 ^ 52 ≤ m) (hgreatest : m < 2 ^ 53) (he : -1074 ≤ e)
    (he' : e ≤ 971) : (Float.Model.pack (.finite s m e hm)).unpack = .finite s m e hm := by
  have hlog : m.log2 = 52 := (Nat.log2_eq_iff hm.ne').2 ⟨hleast, hgreatest⟩
  have hbiased : (BitVec.ofNat 11 (e + 1075).toNat).toNat = (e + 1075).toNat := by
    rw [BitVec.toNat_ofNat]
    omega
  have htop : BitVec.ofNat 11 (e + 1075).toNat ≠ -1#11 := by
    rw [Ne, ← BitVec.toNat_inj, hbiased]
    change _ ≠ 2047
    omega
  have hbottom : BitVec.ofNat 11 (e + 1075).toNat ≠ 0#11 := by
    rw [Ne, ← BitVec.toNat_inj, hbiased]
    change _ ≠ 0
    omega
  have hone : (1#1 ++ BitVec.ofNat 52 m).toNat = m := by
    rw [toNat_one_append, BitVec.toNat_ofNat]
    omega
  change UnpackedFloat.unpack Format.binary64 (UnpackedFloat.pack Format.binary64 _) = _
  rw [pack_finite, if_neg (by omega), if_pos (by omega), unpack_packComponents, if_neg htop,
    if_neg hbottom]
  exact finite_congr hone (by omega)

end

/-! ## Rounding -/

lemma targetExponent_binary64 (t : Int) :
    Format.binary64.targetExponent t = max (t - 53) (-1074) := rfl

lemma mantissa_shiftRight (em : ExtendedMantissa) (k : Nat) :
    (em >>> k).mantissa = em.mantissa / 2 ^ k := by
  change (k.repeat ExtendedMantissa.shiftRightOne em).mantissa = _
  induction k with
  | zero => simp [Nat.repeat]
  | succ k ih =>
    rw [Nat.repeat, ExtendedMantissa.shiftRightOne, ih, Nat.div_div_eq_div_mul, Nat.pow_succ]

lemma shiftRight_exact (m k : Nat) :
    (⟨m * 2 ^ k, false, false⟩ : ExtendedMantissa) >>> k = ⟨m, false, false⟩ := by
  change k.repeat ExtendedMantissa.shiftRightOne _ = _
  induction k generalizing m with
  | zero => simp [Nat.repeat]
  | succ k ih =>
    rw [Nat.repeat, Nat.pow_succ', ← Nat.mul_assoc, ih]
    simp [ExtendedMantissa.shiftRightOne]

lemma roundedMantissa_bounds (em : ExtendedMantissa) :
    em.mantissa ≤ em.roundedMantissa ∧ em.roundedMantissa ≤ em.mantissa + 1 := by
  obtain ⟨m, r, t⟩ := em
  cases r <;> cases t
  · exact ⟨Nat.le_refl m, Nat.le_succ m⟩
  · exact ⟨Nat.le_refl m, Nat.le_succ m⟩
  · change m ≤ m + m % 2 ∧ m + m % 2 ≤ m + 1
    omega
  · exact ⟨Nat.le_succ m, Nat.le_refl _⟩

lemma mantissa_ofMantissaAndAccuracy (m : Nat) (a : Accuracy) :
    (ExtendedMantissa.ofMantissaAndAccuracy m a).mantissa = m := by
  rcases a with _ | _ | _ | _ <;> rfl

lemma log2_le_of_lt {m k : Nat} (h : m < 2 ^ (k + 1)) : m.log2 ≤ k := by
  rcases Nat.eq_zero_or_pos m with rfl | hm
  · simp
  · have := (Nat.log2_lt hm.ne').2 h
    omega

/-- Rounding shifts a mantissa to where it belongs, makes it one more at most, and shifts it again. -/
lemma roundWithAccuracy_eq (s : Sign) (m : Nat) (e : Int) (a : Accuracy) :
    ∃ r k j : Nat, m / 2 ^ k ≤ r ∧ r ≤ m / 2 ^ k + 1 ∧
      (e + k = max e (max (m.log2 - 52 + e) (-1074)) ∧
        e + k + j = max (e + k) (max (r.log2 - 52 + (e + k)) (-1074))) ∧
      roundWithAccuracy Format.binary64 s m e a =
        if h : r / 2 ^ j = 0 then .zero s
        else .finite s (r / 2 ^ j) (e + k + j) (Nat.pos_of_ne_zero h) := by
  set k := (Format.binary64.targetExponent (totalExponent m e) - e).toNat with hk
  set em := ExtendedMantissa.ofMantissaAndAccuracy m a >>> k with hem
  set r := em.roundedMantissa
  set j := (Format.binary64.targetExponent (totalExponent r (e + k)) - (e + k)).toNat with hj
  have hmantissa : em.mantissa = m / 2 ^ k := by
    rw [hem, mantissa_shiftRight, mantissa_ofMantissaAndAccuracy]
  have hround : roundWithAccuracy Format.binary64 s m e a =
      if h : (ExtendedMantissa.ofMantissaAndAccuracy r .exact >>> j).mantissa = 0 then .zero s
      else .finite s _ (e + k + j) (Nat.pos_of_ne_zero h) := rfl
  rw [mantissa_shiftRight, mantissa_ofMantissaAndAccuracy] at hround
  rw [targetExponent_binary64, totalExponent] at hk hj
  obtain ⟨hleast, hgreatest⟩ := roundedMantissa_bounds em
  exact ⟨r, k, j, hmantissa ▸ hleast, hmantissa ▸ hgreatest, by omega, hround⟩

lemma div_two_pow_lt {m k : Nat} (hk : m.log2 ≤ 52 + k) : m / 2 ^ k < 2 ^ 53 := by
  rw [Nat.div_lt_iff_lt_mul (Nat.two_pow_pos k), ← Nat.pow_add]
  exact Nat.lt_of_lt_of_le Nat.lt_log2_self (Nat.pow_le_pow_right (by decide) (by omega))

/-- Rounding makes the exponent what the mantissa wants, and at most one more. -/
lemma exponent_of_roundWithAccuracy (s : Sign) (m : Nat) (e : Int) (a : Accuracy) :
    roundWithAccuracy Format.binary64 s m e a = .zero s ∨ ∃ m' e' h,
      roundWithAccuracy Format.binary64 s m e a = .finite s m' e' h ∧
        e' ≤ max e (max (m.log2 - 52 + e) (-1074)) + 1 := by
  obtain ⟨r, k, j, -, hr, ⟨hk, hj⟩, hround⟩ := roundWithAccuracy_eq s m e a
  have hlt : m / 2 ^ k < 2 ^ 53 := div_two_pow_lt (by omega)
  have hlog : r.log2 ≤ 53 := log2_le_of_lt (by omega)
  rw [hround]
  by_cases h : r / 2 ^ j = 0
  · exact .inl (dif_pos h)
  · exact .inr ⟨_, _, Nat.pos_of_ne_zero h, dif_neg h, by omega⟩

/-- Rounding a mantissa that has all its bits and more gives one that has all its bits, unless the
exponent is too small. -/
lemma roundWithAccuracy_full (s : Sign) {m : Nat} {e : Int} (a : Accuracy) (hm : 52 ≤ m.log2)
    (he : -1074 ≤ m.log2 - 52 + e) : ∃ m' e' h,
      roundWithAccuracy Format.binary64 s m e a = .finite s m' e' h ∧
        2 ^ 52 ≤ m' ∧ m' < 2 ^ 53 ∧ m.log2 - 52 + e ≤ e' ∧ e' ≤ m.log2 - 52 + e + 1 := by
  obtain ⟨r, k, j, hr, hr', ⟨hk, hj⟩, hround⟩ := roundWithAccuracy_eq s m e a
  have hpos : m ≠ 0 := by
    rintro rfl
    exact absurd hm (by decide)
  have hlt : m / 2 ^ k < 2 ^ 53 := div_two_pow_lt (by omega)
  have hle : 2 ^ 52 ≤ m / 2 ^ k := by
    rw [Nat.le_div_iff_mul_le (Nat.two_pow_pos k), ← Nat.pow_add]
    exact Nat.le_trans (Nat.pow_le_pow_right (by decide) (by omega)) (Nat.log2_self_le hpos)
  rcases Nat.lt_or_ge r (2 ^ 53) with hsmall | hlarge
  · have hlog : r.log2 = 52 := (Nat.log2_eq_iff (by omega)).2 ⟨by omega, hsmall⟩
    obtain rfl : j = 0 := by omega
    rw [Nat.pow_zero, Nat.div_one] at hround
    exact ⟨r, _, by omega, hround.trans (dif_neg (by omega)), by omega, hsmall, by omega, by omega⟩
  · obtain rfl : r = 2 ^ 53 := by omega
    rw [Nat.log2_two_pow] at hj
    obtain rfl : j = 1 := by omega
    exact ⟨2 ^ 52, _, by decide, hround.trans (dif_neg (by decide)), by decide, by decide, by omega,
      by omega⟩

lemma log2_mul_two_pow {m : Nat} (hm : 0 < m) (k : Nat) : (m * 2 ^ k).log2 = m.log2 + k := by
  induction k with
  | zero => simp
  | succ k ih =>
    have hne : m * 2 ^ k ≠ 0 := (Nat.mul_pos hm (Nat.two_pow_pos k)).ne'
    rw [Nat.pow_succ', Nat.mul_left_comm, Nat.log2_two_mul hne, ih, Nat.add_assoc]

section
variable {s : Sign} {m : Nat} {e : Int} (hm : 0 < m) (hleast : 2 ^ 52 ≤ m)
  (hgreatest : m < 2 ^ 53) (he : -1074 ≤ e)
include hm hleast hgreatest he

lemma shiftToTargetExponent_exact (k : Nat) :
    shiftToTargetExponent Format.binary64 (m * 2 ^ k) (e - k) .exact = (⟨m, false, false⟩, e) := by
  have hlog : m.log2 = 52 := (Nat.log2_eq_iff hm.ne').2 ⟨hleast, hgreatest⟩
  have htarget : Format.binary64.targetExponent (totalExponent (m * 2 ^ k) (e - k)) = e := by
    rw [targetExponent_binary64, totalExponent, log2_mul_two_pow hm, hlog]
    omega
  have hshift : (e - (e - k)).toNat = k := by omega
  rw [shiftToTargetExponent, htarget, shiftToExponent, hshift]
  refine Prod.ext (shiftRight_exact m k) ?_
  change e - k + k = e
  omega

/-- Rounding takes a mantissa that has all its bits as it is, wherever it has been shifted to. -/
lemma roundWithAccuracy_exact (k : Nat) :
    roundWithAccuracy Format.binary64 s (m * 2 ^ k) (e - k) .exact = .finite s m e hm := by
  have hagain : shiftToTargetExponent Format.binary64 m e .exact = (⟨m, false, false⟩, e) := by
    have h := shiftToTargetExponent_exact hm hleast hgreatest he 0
    rwa [Nat.pow_zero, Nat.mul_one, Int.natCast_zero, Int.sub_zero] at h
  have hrounded : (⟨m, false, false⟩ : ExtendedMantissa).roundedMantissa = m := rfl
  rw [roundWithAccuracy, shiftToTargetExponent_exact hm hleast hgreatest he]
  dsimp only
  rw [hrounded, hagain]
  exact dif_neg hm.ne'

end

/-! ## Operations -/

lemma unpack_mul (x y : Float) : (x * y).toModel.unpack = (Float.Model.pack
    (UnpackedFloat.mul Format.binary64 x.toModel.unpack y.toModel.unpack)).unpack := rfl

lemma unpack_neg (x : Float) :
    (-x).toModel.unpack = (Float.Model.pack x.toModel.unpack.neg).unpack := rfl

lemma unpack_pack_zero (s : Sign) : (Float.Model.pack (.zero s)).unpack = .zero s := by
  cases s <;> rfl

/-- A double is finite exactly if it stands for a binary fraction. -/
lemma isFinite_iff {x : Float} :
    x.isFinite = true ↔ ∃ negative m e, binary x = .finite negative m e := by
  change x.toModel.unpack.isFinite = true ↔ _
  rw [binary_eq]
  rcases x.toModel.unpack with s | _ | s | ⟨s, m, e, hm⟩
  · exact iff_of_false Bool.false_ne_true fun ⟨_, _, _, h⟩ => nomatch h
  · exact iff_of_false Bool.false_ne_true fun ⟨_, _, _, h⟩ => nomatch h
  · exact iff_of_true rfl ⟨_, _, _, rfl⟩
  · exact iff_of_true rfl ⟨_, _, _, rfl⟩

lemma coefficient_lt {x : Float} {negative : Bool} {m : Nat} {e : Int}
    (h : binary x = .finite negative m e) : m < 2 ^ 53 := by
  have hfraction : x.toBits.toNat % Nat.pow 2 52 < 2 ^ 52 := Nat.mod_lt _ (by decide)
  rw [binary, Binary.ofPattern] at h
  split at h
  · split at h <;> exact absurd h (by simp)
  · split at h
    · obtain ⟨-, rfl, -⟩ := Binary.finite.inj h
      omega
    · obtain ⟨-, rfl, -⟩ := Binary.finite.inj h
      change 2 ^ 52 + _ < _
      omega

lemma exponent_le {x : Float} {negative : Bool} {m : Nat} {e : Int}
    (h : binary x = .finite negative m e) : e ≤ 971 := by
  have hbiased : x.toBits.toNat / Nat.pow 2 52 % Nat.pow 2 11 < 2048 := Nat.mod_lt _ (by decide)
  rw [binary, Binary.ofPattern] at h
  split at h
  · split at h <;> exact absurd h (by simp)
  · split at h
    · obtain ⟨-, -, rfl⟩ := Binary.finite.inj h
      decide
    · obtain ⟨-, -, rfl⟩ := Binary.finite.inj h
      omega

lemma binary_of_unpack {x : Float} {s : Sign} {m : Nat} {e : Int} {hm : 0 < m}
    (h : x.toModel.unpack = .finite s m e hm) : binary x = .finite (s == .negative) m e := by
  rw [binary_eq, h, Binary.ofUnpacked_finite]

lemma zero_or_finite {u : Float.Model.UnpackedFloat} (h : u.isFinite = true) :
    (∃ s, u = .zero s) ∨ ∃ s m e hm, u = .finite s m e hm := by
  rcases u with s | _ | s | ⟨s, m, e, hm⟩
  · exact absurd h Bool.false_ne_true
  · exact absurd h Bool.false_ne_true
  · exact .inl ⟨s, rfl⟩
  · exact .inr ⟨s, m, e, hm, rfl⟩

lemma exists_unpack_of_binary {x : Float} {negative : Bool} {m : Nat} {e : Int}
    (h : binary x = .finite negative m e) (hm : 0 < m) :
    ∃ s hm, x.toModel.unpack = .finite s m e hm := by
  rcases zero_or_finite (isFinite_iff.2 ⟨_, _, _, h⟩) with ⟨s, hx⟩ | ⟨s, m', e', hm', hx⟩
  · rw [binary_eq, hx] at h
    obtain ⟨-, rfl, -⟩ := Binary.finite.inj h
    exact absurd hm (Nat.lt_irrefl 0)
  · rw [binary_of_unpack hx] at h
    obtain ⟨-, rfl, rfl⟩ := Binary.finite.inj h
    exact ⟨s, hm', hx⟩

lemma isFinite_neg {x : Float} (h : x.isFinite = true) : (-x).isFinite = true := by
  change (-x).toModel.unpack.isFinite = true
  rw [unpack_neg]
  rcases zero_or_finite h with ⟨s, hx⟩ | ⟨s, m, e, hm, hx⟩
  · rw [hx]
    change (Float.Model.pack (.zero (-s))).unpack.isFinite = true
    rw [unpack_pack_zero]
    rfl
  · rw [hx]
    exact isFinite_pack (exponent_le (binary_of_unpack hx))

/-! ## Whole numbers -/

lemma mul_two_pow_pos {n : Nat} (hpos : 0 < n) (k : Nat) : 0 < n * 2 ^ k :=
  Nat.mul_pos hpos (Nat.two_pow_pos k)

section
variable {n : Nat} (hpos : 0 < n) (hlt : n < 2 ^ 53)
include hpos hlt

lemma fills_mantissa : 2 ^ 52 ≤ n * 2 ^ (52 - n.log2) ∧ n * 2 ^ (52 - n.log2) < 2 ^ 53 := by
  have hlog : n.log2 ≤ 52 := log2_le_of_lt hlt
  have hfull : (n * 2 ^ (52 - n.log2)).log2 = 52 := by
    rw [log2_mul_two_pow hpos]
    omega
  exact (Nat.log2_eq_iff (mul_two_pow_pos hpos _).ne').1 hfull

lemma round_whole : round Format.binary64 .positive n 0 =
    .finite .positive (n * 2 ^ (52 - n.log2)) (-(52 - n.log2 : Nat))
      (mul_two_pow_pos hpos _) := by
  obtain ⟨hleast, hgreatest⟩ := fills_mantissa hpos hlt
  have hlog : n.log2 ≤ 52 := log2_le_of_lt hlt
  have htarget : Format.binary64.targetExponent (totalExponent n 0) = -(52 - n.log2 : Nat) := by
    rw [targetExponent_binary64, totalExponent]
    omega
  have hshift : (0 - -((52 - n.log2 : Nat) : Int)).toNat = 52 - n.log2 := by omega
  have hround := roundWithAccuracy_exact (s := .positive) (mul_two_pow_pos hpos _) hleast
    hgreatest (e := -(52 - n.log2 : Nat)) (by omega) 0
  rw [Nat.pow_zero, Nat.mul_one, Int.natCast_zero, Int.sub_zero] at hround
  rw [UnpackedFloat.round, htarget, decreaseExponent]
  dsimp only
  rw [hshift, Nat.shiftLeft_eq, Int.zero_sub, hround]

lemma unpack_toFloat : n.toUInt64.toFloat.toModel.unpack =
    .finite .positive (n * 2 ^ (52 - n.log2)) (-(52 - n.log2 : Nat))
      (mul_two_pow_pos hpos _) := by
  obtain ⟨hleast, hgreatest⟩ := fills_mantissa hpos hlt
  have hcount : n.toUInt64.toNat = n := Nat.mod_eq_of_lt (by omega)
  have hnormal : UnpackedFloat.ofUInt64 Format.binary64 n.toUInt64 =
      round Format.binary64 .positive n 0 := by
    rw [UnpackedFloat.ofUInt64, UnpackedFloat.ofNat, UnpackedFloat.ofInt, UnpackedFloat.normalize,
      hcount, Int.compare_eq_gt.2 (by omega)]
    rfl
  change (Float.Model.pack (UnpackedFloat.ofUInt64 Format.binary64 n.toUInt64)).unpack = _
  rw [hnormal, round_whole hpos hlt]
  exact unpack_pack hleast hgreatest (by omega) (by omega)

/-- A whole number of at most 53 bits is a double, whose mantissa is the number shifted to all its
bits. -/
lemma unpack_ofNat : (Float.ofNat n).toModel.unpack =
    .finite .positive (n * 2 ^ (52 - n.log2)) (-(52 - n.log2 : Nat))
      (mul_two_pow_pos hpos _) := by
  obtain ⟨hleast, hgreatest⟩ := fills_mantissa hpos hlt
  have hone : (Float.ofBits 0x3FF0000000000000).toModel.unpack =
      .finite .positive (2 ^ 52) (-52) (by decide) := rfl
  have hproduct : Float.ofNat n = n.toUInt64.toFloat * Float.ofBits 0x3FF0000000000000 :=
    dif_pos ⟨hlt, Nat.zero_le 22⟩
  have hround := roundWithAccuracy_exact (s := .positive) (mul_two_pow_pos hpos _) hleast
    hgreatest (e := -(52 - n.log2 : Nat)) (by omega) 52
  rw [hproduct, unpack_mul, unpack_toFloat hpos hlt, hone]
  change (Float.Model.pack (roundWithAccuracy Format.binary64 .positive _
    (-(52 - n.log2 : Nat) - (52 : Nat)) .exact)).unpack = _
  rw [hround]
  exact unpack_pack hleast hgreatest (by omega) (by omega)

end

/-- A whole number of at most 53 bits is a double, with either sign. -/
theorem binary_withSign_ofNat {n : Nat} (negative : Bool) (hn : n < 2 ^ 53) :
    ∃ k : Nat, binary (withSign negative (Float.ofNat n)) = .finite negative (n * 2 ^ k) (-k) := by
  rcases Nat.eq_zero_or_pos n with rfl | hpos
  · refine ⟨1074, ?_⟩
    rw [Nat.zero_mul]
    cases negative <;> rfl
  · obtain ⟨hleast, hgreatest⟩ := fills_mantissa hpos hn
    refine ⟨52 - n.log2, ?_⟩
    rw [binary_eq, withSign]
    cases negative
    · rw [if_neg (by simp), unpack_ofNat hpos hn]
      rfl
    · rw [if_pos rfl, unpack_neg, unpack_ofNat hpos hn]
      exact congrArg Binary.ofUnpacked
        (unpack_pack (s := .negative) hleast hgreatest (by omega) (by omega))

end Formulary
