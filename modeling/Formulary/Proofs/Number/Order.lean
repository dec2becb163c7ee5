import Formulary.Proofs.Number.Doubles
import Mathlib
/-!
# The order of doubles

Two doubles compare in one of three ways, or not at all if one of them is not a number
(`order?_eq_none_iff`); the other way round they compare the other way (`order?_swap`). A difference is
as large in either direction, however it is rounded (`abs_difference_comm`), and magnitudes of which
neither is below the other are the same double (`abs_eq_of_order?`). Equality of doubles is the library's
(`Float.beq_iff_ne_nan_and_eq`), which only the whole of it brings in.
-/

namespace Formulary

open Float.Model Float.Model.UnpackedFloat

/-! ## Comparing -/

section
variable {u v : Float.Model.UnpackedFloat}

lemma compare_sign_swap (s t : Sign) : (compare s t).swap = compare t s := by
  cases s <;> cases t <;> rfl

lemma compare_unpacked_swap : v.compare u = (u.compare v).map Ordering.swap := by
  rcases u with ⟨_ | _⟩ | _ | s | ⟨_ | _, m, e, hm⟩ <;>
    rcases v with ⟨_ | _⟩ | _ | t | ⟨_ | _, n, f, hn⟩ <;>
    simp [UnpackedFloat.compare, compare_sign_swap, Ordering.swap_then, Int.compare_swap,
      Nat.compare_swap]

lemma compare_unpacked_eq_none_iff :
    u.compare v = none ↔ u.isNaN = true ∨ v.isNaN = true := by
  rcases u with ⟨_ | _⟩ | _ | s | ⟨_ | _, m, e, hm⟩ <;>
    rcases v with ⟨_ | _⟩ | _ | t | ⟨_ | _, n, f, hn⟩ <;>
    simp [UnpackedFloat.compare, UnpackedFloat.isNaN]

end

/-- How two doubles compare, if both are numbers. -/
def order? (x y : Float) : Option Ordering :=
  x.toModel.unpack.compare y.toModel.unpack

section
variable {x y : Float}

lemma order?_swap : order? y x = (order? x y).map Ordering.swap :=
  compare_unpacked_swap

lemma order?_eq_none_iff : order? x y = none ↔ x.isNaN = true ∨ y.isNaN = true :=
  compare_unpacked_eq_none_iff

lemma lt_iff_order? : x < y ↔ order? x y = some .lt := by
  change Float.lt x y = true ↔ _
  rw [Float.lt, decide_eq_true_iff]
  exact beq_iff_eq

lemma le_iff_order? : x ≤ y ↔ order? x y = some .lt ∨ order? x y = some .eq := by
  change Float.le x y = true ↔ _
  rw [Float.le, decide_eq_true_iff]
  change (order? x y).any _ = true ↔ _
  rcases order? x y with _ | _ | _ | _ <;> simp

lemma beq_iff_order? : (x == y) = true ↔ order? x y = some .eq := by
  change (order? x y == some .eq) = true ↔ _
  exact beq_iff_eq

/-- A finite double is a number. -/
lemma isNaN_of_isFinite (h : x.isFinite = true) : x.isNaN = false := by
  change x.toModel.unpack.isFinite = true at h
  change x.toModel.unpack.isNaN = false
  rcases zero_or_finite h with ⟨s, hx⟩ | ⟨s, m, e, hm, hx⟩ <;> rw [hx] <;> rfl

end

/-! ## Magnitudes -/

lemma abs_unpack_packComponents (s : Sign) (e : BitVec 11) (m : BitVec 52) :
    (UnpackedFloat.unpack Format.binary64 (packComponents Format.binary64 s e m)).abs =
      UnpackedFloat.unpack Format.binary64 (packComponents Format.binary64 .positive e m) := by
  rw [unpack_packComponents, unpack_packComponents]
  split_ifs <;> rfl

/-- Packing keeps the sign apart from the magnitude. -/
lemma abs_unpack_pack (u : Float.Model.UnpackedFloat) :
    (Float.Model.pack u).unpack.abs = (Float.Model.pack u.abs).unpack := by
  change (UnpackedFloat.unpack Format.binary64 (UnpackedFloat.pack Format.binary64 u)).abs =
    UnpackedFloat.unpack Format.binary64 (UnpackedFloat.pack Format.binary64 u.abs)
  rcases u with s | _ | s | ⟨s, m, e, hm⟩
  · cases s <;> rfl
  · rfl
  · cases s <;> rfl
  · rw [UnpackedFloat.abs, pack_finite, pack_finite]
    split_ifs
    · cases s <;> rfl
    · exact abs_unpack_packComponents ..
    · exact abs_unpack_packComponents ..

lemma pack_unpack_toModel (x : Float) : Float.Model.pack x.toModel.unpack = x.toModel := by
  have hbits := pack_unpack_of_valid x.toModel.valid
  rw [Float.Model.pack]
  congr 1
  exact congrArg UInt64.ofBitVec hbits

lemma unpack_abs (x : Float) : x.abs.toModel.unpack = x.toModel.unpack.abs := by
  change (Float.Model.pack x.toModel.unpack.abs).unpack = _
  rw [← abs_unpack_pack, pack_unpack_toModel]

lemma isNaN_abs (x : Float) : x.abs.isNaN = x.isNaN := by
  change x.abs.toModel.unpack.isNaN = x.toModel.unpack.isNaN
  rw [unpack_abs]
  cases x.toModel.unpack <;> rfl

/-- Two magnitudes that compare as equal are the same: there is one zero among them. -/
lemma abs_eq_of_order? {x y : Float} (h : order? x.abs y.abs = some .eq) : x.abs = y.abs := by
  have hnegative : ∀ z : Float, z.abs.toModel.unpack ≠ .zero .negative := by
    intro z
    rw [unpack_abs]
    cases z.toModel.unpack <;> simp [UnpackedFloat.abs]
  have hequal := Float.beq_iff_ne_nan_and_eq.1 (beq_iff_order?.2 h)
  rcases hequal with ⟨-, -, hsame | ⟨-, hy⟩ | ⟨hx, -⟩⟩
  · exact hsame
  · exact absurd (congrArg (·.toModel.unpack) hy) (hnegative y)
  · exact absurd (congrArg (·.toModel.unpack) hx) (hnegative x)

lemma abs_round (s t : Sign) (m : Nat) (e : Int) :
    (round Format.binary64 s m e).abs = (round Format.binary64 t m e).abs := by
  simp only [UnpackedFloat.round, roundWithAccuracy]
  split_ifs <;> rfl

lemma abs_normalize_neg (m e : Int) (s : Sign) :
    (normalize Format.binary64 (-m) e s).abs = (normalize Format.binary64 m e s).abs := by
  rcases lt_trichotomy m 0 with hm | rfl | hm
  · simp only [UnpackedFloat.normalize]
    rw [Int.compare_eq_lt.2 hm, Int.compare_eq_gt.2 (by omega : -m > 0)]
    exact abs_round ..
  · rfl
  · simp only [UnpackedFloat.normalize]
    rw [Int.compare_eq_gt.2 hm, Int.compare_eq_lt.2 (by omega : -m < 0), neg_neg]
    exact abs_round ..

/-- Unpacked, a difference is as large in either direction. -/
lemma abs_sub_unpacked_comm (u v : Float.Model.UnpackedFloat) :
    (UnpackedFloat.sub Format.binary64 u v).abs = (UnpackedFloat.sub Format.binary64 v u).abs := by
  rcases u with s | _ | s | ⟨s, m, e, hm⟩ <;> rcases v with t | _ | t | ⟨t, n, f, hn⟩
  case finite.finite =>
    simp only [UnpackedFloat.sub]
    rw [← abs_normalize_neg, neg_sub, min_comm]
  case infinity.infinity => cases s <;> cases t <;> rfl
  case zero.zero => cases s <;> cases t <;> rfl
  all_goals rfl

/-- A difference is as large in either direction. -/
lemma abs_difference_comm (x y : Float) : (x - y).abs = (y - x).abs := by
  have hunpacked : ∀ x y : Float, (x - y).abs.toModel =
      Float.Model.pack (Float.Model.pack
        (UnpackedFloat.sub Format.binary64 x.toModel.unpack y.toModel.unpack).abs).unpack := by
    intro x y
    -- a difference is packed before its sign is taken away
    rw [← abs_unpack_pack]
    rfl
  have hmodel : (x - y).abs.toModel = (y - x).abs.toModel := by
    rw [hunpacked, hunpacked, abs_sub_unpacked_comm]
  exact congrArg Float.ofModel hmodel

end Formulary
